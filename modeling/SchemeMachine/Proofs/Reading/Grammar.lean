import SchemeMachine.Proofs.Reading.Data

/-!
# The grammar of data

`Derives p x` says that the tokens `p`, all of them, spell the datum `x`:

    datum   ::=  atom  |  ' datum  |  ( element* )  |  ( element+ . datum )

where an atom is any token other than a parenthesis or quote mark, and an element is a
datum other than the single token `.`.

The reader keeps what is open around the datum to come.  `Completes result p x` says in
the words of the grammar what this still demands: the tokens `p` bring the reading, as
far as it has come, to the datum `x`.  One token taken by the reader is one token less of
what is demanded, so the reader accepts the grammar and nothing else.  Whatever is open
can be completed, so only a syntax error rules out every continuation.
-/

namespace SchemeMachine.Datum

mutual

/-- The tokens spell the datum. -/
inductive Derives : List Token → Datum → Prop
  | atom {token : Token} (hopen : token ≠ "(") (hclose : token ≠ ")") (hquote : token ≠ "'") :
      Derives [token] (ofToken token)
  | quote {tokens : List Token} {d : Datum} (h : Derives tokens d) :
      Derives ("'" :: tokens) d.quoted
  | list {tokens : List Token} {items : List Datum} (h : Elements tokens items) :
      Derives ("(" :: (tokens ++ [")"])) (ofList items nil)
  | dotted {tokens rest : List Token} {items : List Datum} {tail : Datum}
      (h : Elements tokens items) (hsome : items ≠ []) (htail : Derives rest tail) :
      Derives ("(" :: (tokens ++ "." :: (rest ++ [")"]))) (ofList items tail)

/-- The tokens spell the data one after another, none of them by a single dot. -/
inductive Elements : List Token → List Datum → Prop
  | nil : Elements [] []
  | cons {tokens rest : List Token} {d : Datum} {items : List Datum} (h : Derives tokens d)
      (hdot : tokens ≠ ["."]) (hrest : Elements rest items) :
      Elements (tokens ++ rest) (d :: items)

end

theorem Elements.snoc {tokens last : List Token} {items : List Datum} {d : Datum}
    (h : Elements tokens items) (hlast : Derives last d) (hdot : last ≠ ["."]) :
    Elements (tokens ++ last) (items ++ [d]) := by
  match h with
  | .nil => simpa using Elements.cons hlast hdot .nil
  | @Elements.cons first rest e items hfirst hne hrest =>
      rw [List.append_assoc]
      exact .cons hfirst hne (hrest.snoc hlast hdot)

/-! ## The reader follows a derivation -/

mutual

/-- The reader takes the tokens of a datum and places the datum. -/
theorem Derives.readFrom_eq {tokens : List Token} {d : Datum} (h : Derives tokens d)
    {outer : List Opening} (hdot : tokens ≠ ["."] ∨ OutOfList outer) (rest : List Token) :
    readFrom (.datum outer) (tokens ++ rest) = resume (place d outer) rest := by
  match h with
  | @Derives.atom token hopen hclose hquote =>
      have hatom : token ≠ "." ∨ OutOfList outer := by
        simpa only [ne_eq, List.cons.injEq, and_true] using hdot
      exact readFrom_cons (take_ofToken hopen hclose hquote hatom) rest
  | @Derives.quote tokens d h =>
      calc readFrom (.datum outer) ("'" :: tokens ++ rest)
          = readFrom (.datum (.quote :: outer)) (tokens ++ rest) :=
            readFrom_cons (take_quote outer) _
        _ = resume (place d.quoted outer) rest :=
            h.readFrom_eq (.inr (outOfList_quote outer)) rest
  | @Derives.list tokens items h =>
      calc readFrom (.datum outer) ("(" :: (tokens ++ [")"]) ++ rest)
          = readFrom (.datum outer) ("(" :: (tokens ++ ")" :: rest)) := by simp
        _ = readFrom (.datum (.list [] :: outer)) (tokens ++ ")" :: rest) :=
            readFrom_cons (take_open outer) _
        _ = readFrom (.datum (.list items.reverse :: outer)) (")" :: rest) := by
            rw [h.readFrom_eq, List.append_nil]
        _ = resume (place (ofList items nil) outer) rest := by
            rw [readFrom_cons (take_close items.reverse outer), List.reverse_reverse]
  | @Derives.dotted tokens last items tail h hsome htail =>
      have hrev : items.reverse ≠ [] := by simpa using hsome
      calc readFrom (.datum outer) ("(" :: (tokens ++ "." :: (last ++ [")"])) ++ rest)
          = readFrom (.datum outer) ("(" :: (tokens ++ "." :: (last ++ ")" :: rest))) := by simp
        _ = readFrom (.datum (.list [] :: outer)) (tokens ++ "." :: (last ++ ")" :: rest)) :=
            readFrom_cons (take_open outer) _
        _ = readFrom (.datum (.list items.reverse :: outer)) ("." :: (last ++ ")" :: rest)) := by
            rw [h.readFrom_eq, List.append_nil]
        _ = readFrom (.datum (.tail items.reverse :: outer)) (last ++ ")" :: rest) :=
            readFrom_cons (take_dot hrev outer) _
        _ = readFrom (.close items.reverse tail outer) (")" :: rest) :=
            htail.readFrom_eq (.inr (outOfList_tail _ outer)) _
        _ = resume (place (ofList items tail) outer) rest := by
            rw [readFrom_cons (take_close_tail items.reverse tail outer), List.reverse_reverse]

/-- The reader takes the tokens of some elements and adds them to the list. -/
theorem Elements.readFrom_eq {tokens : List Token} {data : List Datum} (h : Elements tokens data)
    (items : List Datum) (outer : List Opening) (rest : List Token) :
    readFrom (.datum (.list items :: outer)) (tokens ++ rest) =
      readFrom (.datum (.list (data.reverse ++ items) :: outer)) rest := by
  match h with
  | .nil => rfl
  | @Elements.cons tokens others d data h hdot hrest =>
      calc readFrom (.datum (.list items :: outer)) (tokens ++ others ++ rest)
          = readFrom (.datum (.list (d :: items) :: outer)) (others ++ rest) := by
            rw [List.append_assoc]
            exact h.readFrom_eq (.inl hdot) _
        _ = readFrom (.datum (.list ((d :: data).reverse ++ items) :: outer)) rest := by
            rw [hrest.readFrom_eq, List.reverse_cons, List.append_assoc, List.singleton_append]

end

/-! ## What an open reading demands -/

/-- The tokens bring the reading, as far as it has come, to this datum. -/
inductive Completes : Datum ⊕ Progress → List Token → Datum → Prop
  | whole (x : Datum) : Completes (.inl x) [] x
  | element {q p : List Token} {d x : Datum} {outer : List Opening} (hq : Derives q d)
      (hdot : q ≠ ["."] ∨ OutOfList outer) (h : Completes (place d outer) p x) :
      Completes (.inr (.datum outer)) (q ++ p) x
  | shut {items : List Datum} {outer : List Opening} {p : List Token} {x : Datum}
      (h : Completes (place (ofList items.reverse nil) outer) p x) :
      Completes (.inr (.datum (.list items :: outer))) (")" :: p) x
  | dot {items : List Datum} {outer : List Opening} {p : List Token} {x : Datum}
      (hsome : items ≠ []) (h : Completes (.inr (.datum (.tail items :: outer))) p x) :
      Completes (.inr (.datum (.list items :: outer))) ("." :: p) x
  | close {items : List Datum} {tail : Datum} {outer : List Opening} {p : List Token} {x : Datum}
      (h : Completes (place (ofList items.reverse tail) outer) p x) :
      Completes (.inr (.close items tail outer)) (")" :: p) x

namespace Completes

variable {p : List Token} {x : Datum}

/-- The reader takes what is demanded and gives the datum. -/
theorem resume_eq {result : Datum ⊕ Progress} (h : Completes result p x) (rest : List Token) :
    resume result (p ++ rest) = (.ok x, rest) := by
  induction h with
  | whole x => rfl
  | @element q p d x outer hq hdot _ ih =>
      calc resume (.inr (.datum outer)) (q ++ p ++ rest)
          = readFrom (.datum outer) (q ++ (p ++ rest)) := by rw [List.append_assoc, resume]
        _ = resume (place d outer) (p ++ rest) := hq.readFrom_eq hdot _
        _ = (.ok x, rest) := ih
  | shut _ ih => exact (readFrom_cons (take_close _ _) _).trans ih
  | dot hsome _ ih => exact (readFrom_cons (take_dot hsome _) _).trans ih
  | close _ ih => exact (readFrom_cons (take_close_tail _ _ _) _).trans ih

/-- What a quote mark demands is a datum. -/
theorem of_quote {outer : List Opening} (h : Completes (.inr (.datum (.quote :: outer))) p x) :
    Completes (.inr (.datum outer)) ("'" :: p) x := by
  cases h with
  | element hq _ h => exact .element hq.quote (.inl (by simp)) h

/-- What a dotted list demands is its tail and the closing parenthesis. -/
theorem of_tail {items : List Datum} {outer : List Opening}
    (h : Completes (.inr (.datum (.tail items :: outer))) p x) :
    ∃ q rest tail, p = q ++ ")" :: rest ∧ Derives q tail ∧
      Completes (place (ofList items.reverse tail) outer) rest x := by
  cases h with
  | @element q _ tail _ _ hq _ h =>
      rw [place] at h
      cases h with
      | close h => exact ⟨q, _, tail, rfl, hq, h⟩

/-- What an open list demands completes it as a datum of its own. -/
theorem of_list {items : List Datum} {outer : List Opening} {inner : List Token}
    (h : Completes (.inr (.datum (.list items :: outer))) p x)
    (hinner : Elements inner items.reverse) :
    Completes (.inr (.datum outer)) ("(" :: (inner ++ p)) x := by
  generalize hfrom : Sum.inr (Progress.datum (.list items :: outer)) = result at h
  induction h generalizing items inner with
  | whole x => cases hfrom
  | @element q p d x within hq hdot _ ih =>
      cases hfrom
      have hne : q ≠ ["."] := hdot.resolve_right fun hout => hout items outer rfl
      have hmore : Elements (inner ++ q) (d :: items).reverse := by
        rw [List.reverse_cons]
        exact hinner.snoc hq hne
      rw [← List.append_assoc]
      exact ih hmore rfl
  | @shut _ _ p x h _ =>
      cases hfrom
      have htokens : "(" :: (inner ++ ")" :: p) = "(" :: (inner ++ [")"]) ++ p := by simp
      rw [htokens]
      exact .element (.list hinner) (.inl (by simp)) h
  | @dot _ _ p x hsome h _ =>
      cases hfrom
      obtain ⟨q, rest, tail, rfl, hq, hplaced⟩ := h.of_tail
      have htokens : "(" :: (inner ++ "." :: (q ++ ")" :: rest)) =
          "(" :: (inner ++ "." :: (q ++ [")"])) ++ rest := by
        simp
      rw [htokens]
      exact .element (.dotted hinner (by simpa using hsome) hq) (.inl (by simp)) hplaced
  | close _ _ => cases hfrom

/-- A token that the reader takes is a token less of what is demanded. -/
theorem cons {progress : Progress} {token : Token} {result : Datum ⊕ Progress}
    (htake : progress.take token = .ok result) (h : Completes result p x) :
    Completes (.inr progress) (token :: p) x := by
  cases progress with
  | close items tail outer =>
      rw [Progress.take] at htake
      split at htake
      · next hclose =>
          cases htake
          exact hclose ▸ .close h
      · cases htake
  | datum outer =>
      unfold Progress.take at htake
      dsimp only at htake
      split at htake
      · next hopen =>
          cases htake
          exact hopen ▸ h.of_list .nil
      next hopen =>
      split at htake
      · next hquote =>
          cases htake
          exact hquote ▸ h.of_quote
      next hquote =>
      split at htake
      · next items outside =>
          split at htake
          · next hclose =>
              cases htake
              exact hclose ▸ .shut h
          next hclose =>
          split at htake
          · next hdot =>
              split at htake
              · cases htake
              · next hsome =>
                  cases htake
                  exact hdot ▸ .dot (by simpa using hsome) h
          · next hdot =>
              cases htake
              exact .element (.atom hopen hclose hquote) (.inl (by simpa using hdot)) h
      · next hout =>
          split at htake
          · cases htake
          · next hclose =>
              cases htake
              exact .element (.atom hopen hclose hquote) (.inr hout) h

/-- What was placed can be completed: a closing parenthesis ends every list that is open. -/
theorem exists_place (d : Datum) (outer : List Opening) : ∃ p x, Completes (place d outer) p x := by
  induction outer generalizing d with
  | nil => exact ⟨[], d, .whole d⟩
  | cons opening outer ih =>
      cases opening with
      | quote => exact ih d.quoted
      | list items =>
          obtain ⟨p, x, h⟩ := ih (ofList (d :: items).reverse nil)
          exact ⟨")" :: p, x, .shut h⟩
      | tail items =>
          obtain ⟨p, x, h⟩ := ih (ofList items.reverse d)
          exact ⟨")" :: p, x, .close h⟩

/-- Whatever is open can be completed. -/
theorem exists_of_progress (progress : Progress) : ∃ p x, Completes (.inr progress) p x := by
  cases progress with
  | close items tail outer =>
      obtain ⟨p, x, h⟩ := exists_place (ofList items.reverse tail) outer
      exact ⟨")" :: p, x, .close h⟩
  | datum outer =>
      obtain ⟨p, x, h⟩ := exists_place (ofToken "x") outer
      exact ⟨["x"] ++ p, x,
        .element (.atom (by decide) (by decide) (by decide)) (.inl (by decide)) h⟩

end Completes

/-! ## The reader accepts just the grammar -/

theorem outOfList_nil : OutOfList [] := by
  rintro items outside ⟨⟩

/-- At the start, what is demanded is a datum. -/
theorem completes_start_iff {p : List Token} {x : Datum} :
    Completes (.inr .start) p x ↔ Derives p x := by
  constructor
  · intro h
    rw [Progress.start] at h
    cases h with
    | element hq _ h =>
        cases h with
        | whole => rwa [List.append_nil]
  · intro h
    have hwhole := Completes.element h (.inr outOfList_nil) (.whole x)
    rwa [List.append_nil] at hwhole

/-- The tokens that the reader used up are what was demanded. -/
theorem completes_of_readFrom {progress : Progress} {tokens rest : List Token} {x : Datum}
    (h : readFrom progress tokens = (.ok x, rest)) :
    ∃ p, tokens = p ++ rest ∧ Completes (.inr progress) p x := by
  induction tokens generalizing progress with
  | nil => cases h
  | cons token tokens ih =>
      cases htake : progress.take token with
      | error fault =>
          rw [readFrom, htake] at h
          cases fault <;> cases h
      | ok result =>
          rw [readFrom_cons htake] at h
          cases result with
          | inl d =>
              cases h
              exact ⟨[token], rfl, .cons htake (.whole x)⟩
          | inr further =>
              obtain ⟨p, rfl, hp⟩ := ih h
              exact ⟨token :: p, rfl, .cons htake hp⟩

theorem Derives.readOne_eq {p : List Token} {x : Datum} (h : Derives p x) (rest : List Token) :
    readOne (p ++ rest) = (.ok x, rest) :=
  (completes_start_iff.mpr h).resume_eq rest

theorem readOne_eq_ok_iff {tokens rest : List Token} {x : Datum} :
    readOne tokens = (.ok x, rest) ↔ ∃ p, tokens = p ++ rest ∧ Derives p x := by
  constructor
  · intro h
    obtain ⟨p, htokens, hp⟩ := completes_of_readFrom h
    exact ⟨p, htokens, completes_start_iff.mp hp⟩
  · rintro ⟨p, rfl, hp⟩
    exact hp.readOne_eq rest

/-- Of the beginnings of some tokens at most one is a datum, and it is one datum. -/
theorem Derives.unique {p q : List Token} {x y : Datum} {tokens : List Token}
    (hp : Derives p x) (hq : Derives q y) (hptokens : p <+: tokens) (hqtokens : q <+: tokens) :
    p = q ∧ x = y := by
  obtain ⟨rest, rfl⟩ := hptokens
  obtain ⟨others, heq⟩ := hqtokens
  have hread := hp.readOne_eq rest
  rw [← heq, hq.readOne_eq others] at hread
  cases hread
  exact ⟨(List.append_cancel_right heq).symm, rfl⟩

/-! ## Running out of tokens, and syntax errors -/

theorem not_isSyntaxError_endOfInput : ¬ Fault.endOfInput.IsSyntaxError := by
  decide +kernel

/-- A reading that ran out of tokens has used them all, and goes on with those to come. -/
theorem readFrom_endOfInput {progress : Progress} {tokens rest : List Token}
    (h : readFrom progress tokens = (.error .endOfInput, rest)) :
    rest = [] ∧ ∃ further : Progress, ∀ more,
      readFrom progress (tokens ++ more) = readFrom further more := by
  induction tokens generalizing progress with
  | nil =>
      cases h
      exact ⟨rfl, progress, fun more => rfl⟩
  | cons token tokens ih =>
      cases htake : progress.take token with
      | error fault =>
          have hmalformed := Progress.isSyntaxError_of_take htake
          rw [readFrom, htake] at h
          cases fault <;> cases h
          exact absurd hmalformed not_isSyntaxError_endOfInput
      | ok result =>
          rw [readFrom_cons htake] at h
          cases result with
          | inl d => cases h
          | inr further =>
              obtain ⟨hrest, last, hlast⟩ := ih h
              refine ⟨hrest, last, fun more => ?_⟩
              rw [List.cons_append, readFrom_cons htake]
              exact hlast more

/-- What is left is an end of the tokens. -/
theorem readFrom_suffix {progress : Progress} {tokens rest : List Token}
    {result : Except Fault Datum} (h : readFrom progress tokens = (result, rest)) :
    rest <:+ tokens := by
  induction tokens generalizing progress with
  | nil =>
      cases h
      exact List.suffix_rfl
  | cons token tokens ih =>
      cases htake : progress.take token with
      | error fault =>
          rw [readFrom, htake] at h
          cases fault with
          | closeExpected =>
              cases h
              exact List.suffix_rfl
          | _ =>
              cases h
              exact List.suffix_cons _ _
      | ok taken =>
          rw [readFrom_cons htake] at h
          cases taken with
          | inl d =>
              cases h
              exact List.suffix_cons _ _
          | inr further => exact (ih h).trans (List.suffix_cons _ _)

/-- The reader asks for more tokens where these are the proper beginning of a datum. -/
theorem exists_derives_of_endOfInput {tokens rest : List Token}
    (h : readOne tokens = (.error .endOfInput, rest)) : ∃ more x, Derives (tokens ++ more) x := by
  obtain ⟨_, further, hfurther⟩ := readFrom_endOfInput h
  obtain ⟨more, x, hmore⟩ := Completes.exists_of_progress further
  have hread : readOne (tokens ++ more) = (.ok x, []) := by
    have hresume := hmore.resume_eq []
    rw [List.append_nil] at hresume
    exact (hfurther more).trans hresume
  obtain ⟨p, hp, hderives⟩ := readOne_eq_ok_iff.mp hread
  exact ⟨more, x, by rwa [hp, List.append_nil]⟩

/-- The reader answers with a datum, by asking for more tokens or with a syntax error. -/
theorem readOne_cases (tokens : List Token) :
    (∃ x rest, readOne tokens = (.ok x, rest)) ∨ readOne tokens = (.error .endOfInput, []) ∨
      ∃ fault rest, fault.IsSyntaxError ∧ readOne tokens = (.error fault, rest) := by
  rcases hread : readOne tokens with ⟨fault | x, rest⟩
  · obtain rfl | hmalformed := readFrom_fault hread
    · exact .inr (.inl (by rw [(readFrom_endOfInput hread).1]))
    · exact .inr (.inr ⟨fault, rest, hmalformed, rfl⟩)
  · exact .inl ⟨x, rest, rfl⟩

theorem error_ne_endOfInput {fault : Fault} (h : fault.IsSyntaxError) :
    Except.error fault ≠ (.error .endOfInput : Except Fault Datum) := by
  rintro ⟨⟩
  exact not_isSyntaxError_endOfInput h

/-- No datum begins with tokens that the reader refuses. -/
theorem not_derives_of_isSyntaxError {tokens rest more p : List Token} {fault : Fault}
    {x : Datum} (h : readOne tokens = (.error fault, rest)) (hmalformed : fault.IsSyntaxError)
    (hp : p <+: tokens ++ more) : ¬ Derives p x := by
  intro hderives
  obtain ⟨others, hothers⟩ := hp
  have hread := readOne_append h (error_ne_endOfInput hmalformed) more
  rw [← hothers, hderives.readOne_eq others] at hread
  cases hread

/-- **The reader accepts its grammar and classifies every failure.**  It reads a datum where
the tokens begin with one, which is then the only one they begin with.  It asks for more
tokens, having used all there are, where they begin with no datum but some continuation is
one.  And it answers with a syntax error where no continuation begins with a datum; then
every continuation gets the same answer, and what is left is an end of the tokens. -/
theorem readOne_classifies (tokens : List Token) :
    (∀ x rest, readOne tokens = (.ok x, rest) ↔ ∃ p, tokens = p ++ rest ∧ Derives p x) ∧
    (∀ p q x y, p <+: tokens → q <+: tokens → Derives p x → Derives q y → p = q ∧ x = y) ∧
    ((readOne tokens).1 = .error .endOfInput ↔
      (∀ p x, p <+: tokens → ¬ Derives p x) ∧ ∃ more x, Derives (tokens ++ more) x) ∧
    ((readOne tokens).1 = .error .endOfInput → (readOne tokens).2 = []) ∧
    ((∃ fault, fault.IsSyntaxError ∧ (readOne tokens).1 = .error fault) ↔
      ∀ more p x, p <+: tokens ++ more → ¬ Derives p x) ∧
    (∀ fault rest, fault.IsSyntaxError → readOne tokens = (.error fault, rest) →
      rest <:+ tokens ∧ ∀ more, readOne (tokens ++ more) = (.error fault, rest ++ more)) := by
  refine ⟨fun x rest => readOne_eq_ok_iff, fun p q x y hp hq hx hy => hx.unique hy hp hq,
    ⟨fun h => ⟨?_, ?_⟩, ?_⟩, fun h => ?_, ⟨?_, fun h => ?_⟩,
    fun fault rest hmalformed h => ⟨?_, ?_⟩⟩
  · rintro p x ⟨rest, rfl⟩ hp
    rw [hp.readOne_eq rest] at h
    cases h
  · exact exists_derives_of_endOfInput (Prod.ext h rfl)
  · rintro ⟨hnone, more, x, hmore⟩
    obtain ⟨y, rest, h⟩ | h | ⟨fault, rest, hmalformed, h⟩ := readOne_cases tokens
    · obtain ⟨p, hp, hy⟩ := readOne_eq_ok_iff.mp h
      exact absurd hy (hnone p y ⟨rest, hp.symm⟩)
    · rw [h]
    · exact absurd hmore (not_derives_of_isSyntaxError h hmalformed List.prefix_rfl)
  · exact (readFrom_endOfInput (Prod.ext h rfl)).1
  · rintro ⟨fault, hmalformed, h⟩ more p x hp
    exact not_derives_of_isSyntaxError (Prod.ext h rfl) hmalformed hp
  · obtain ⟨y, rest, hread⟩ | hread | ⟨fault, rest, hmalformed, hread⟩ := readOne_cases tokens
    · obtain ⟨p, hp, hy⟩ := readOne_eq_ok_iff.mp hread
      exact absurd hy (h [] p y ⟨rest, by rw [List.append_nil, hp]⟩)
    · obtain ⟨more, x, hx⟩ := exists_derives_of_endOfInput hread
      exact absurd hx (h more _ x List.prefix_rfl)
    · exact ⟨fault, hmalformed, by rw [hread]⟩
  · exact readFrom_suffix h
  · exact readOne_append h (error_ne_endOfInput hmalformed)

end SchemeMachine.Datum
