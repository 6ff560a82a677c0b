import ViewWiring.Proofs.Address.Scanning

namespace ViewWiring.Address

open scoped Computability

def TokenKind.sample : TokenKind → Lexeme
  | number => ⟨number, "0"⟩
  | ident => ⟨ident, "x"⟩
  | dot => ⟨dot, "."⟩
  | bracketOpen => ⟨bracketOpen, "["⟩
  | bracketClose => ⟨bracketClose, "]"⟩
  | greaterThan => ⟨greaterThan, ">"⟩

def Extends (A : List Lexeme → Prop) (ls : List Lexeme) : Prop :=
  ∃ ks : List TokenKind, A (ls ++ ks.map TokenKind.sample)

/-- Where reading fails, `A` being the accepted lexemes: at a token that cannot stand behind
those before it, at the end of tokens that are not complete, or at an index that is too large.
What was read until then could have been gone on with. -/
inductive Halts (A : List Lexeme → Prop) : List Token → Malformed → Prop
  | unexpected (pre : List Token) {post : List Token} {t : Token} {e : Expected}
      (hpre : Extends A (pre.map Token.lexeme))
      (hdead : ∀ text rest, ¬ A (pre.map Token.lexeme ++ ⟨t.kind, text⟩ :: rest)) :
      Halts A (pre ++ t :: post) (.unexpected t e)
  | ended {ts : List Token} {e : Expected} (hts : Extends A (ts.map Token.lexeme)) : Halts A ts (.ended e)
  | indexTooLarge (pre : List Token) {post : List Token} {bracket t : Token}
      (hbracket : bracket.kind = .bracketOpen) (ht : t.kind = .number) (hlarge : 2 ^ 64 ≤ decimal t.text)
      (hpre : Extends A (pre.map Token.lexeme ++ [bracket.lexeme])) :
      Halts A (pre ++ bracket :: t :: post) (.indexTooLarge t.text t.offset)

/-- The text is the beginning of an accepted one. -/
def Viable {α : Type} (parse : String → Except Malformed α) (text : String) : Prop :=
  ∃ more a, parse (text ++ more) = .ok a

structure Pinpoints {α : Type} (parse : String → Except Malformed α) (text : String) : Prop where
  stray : ∀ s, parse text = .error (.stray s) ↔ tokens text = .error s
  empty : parse text = .error .empty ↔ tokens text = .ok []
  unexpected : ∀ t e, parse text = .error (.unexpected t e) → (∃ ts, tokens text = .ok ts ∧ t ∈ ts) ∧
    ∃ before after, text = before ++ t.text ++ after ∧ before.utf8ByteSize = t.offset ∧
      Viable parse before ∧ ¬ Viable parse (before ++ t.text)
  ended : ∀ e, parse text = .error (.ended e) → Viable parse text ∧ ∀ a, parse text ≠ .ok a
  indexTooLarge : ∀ digits offset, parse text = .error (.indexTooLarge digits offset) →
    2 ^ 64 ≤ decimal digits ∧
    (∃ pre bracket post, tokens text = .ok (pre ++ bracket :: ⟨.number, digits, offset⟩ :: post) ∧
      bracket.kind = .bracketOpen) ∧
    ∃ before after, text = before ++ digits ++ after ∧ before.utf8ByteSize = offset ∧ Viable parse before

theorem TokenKind.proper_sample (k : TokenKind) : k.sample.Proper := by
  cases k <;> exact ⟨rfl, nofun⟩

/-- Reading goes on in the same way behind what was read. -/
theorem Halts.append {A B : List Lexeme → Prop} {ts : List Token} {m : Malformed} (before : List Token)
    (hA : ∀ ls, A (before.map Token.lexeme ++ ls) ↔ B ls) (h : Halts B ts m) : Halts A (before ++ ts) m := by
  have hextends {ls : List Lexeme} (hls : Extends B ls) : Extends A (before.map Token.lexeme ++ ls) := by
    obtain ⟨ks, hks⟩ := hls
    exact ⟨ks, by rwa [List.append_assoc, hA]⟩
  cases h with
  | unexpected pre hpre hdead =>
      rw [← List.append_assoc]
      apply Halts.unexpected (before ++ pre)
      · rw [List.map_append]
        exact hextends hpre
      · intro text rest
        rw [List.map_append, List.append_assoc, hA]
        exact hdead text rest
  | ended hts =>
      apply Halts.ended
      rw [List.map_append]
      exact hextends hts
  | indexTooLarge pre hbracket ht hlarge hpre =>
      rw [← List.append_assoc]
      apply Halts.indexTooLarge (before ++ pre) hbracket ht hlarge
      rw [List.map_append, List.append_assoc]
      exact hextends hpre

theorem nameOf_failsOnly {P : Malformed → Prop} {e : Expected} {t : Token}
    (h : t.kind ≠ .ident → P (.unexpected t e)) : FailsOnly P (nameOf e t) := by
  rw [nameOf]
  split
  · exact .ok _
  · exact .error (h ‹_›)

namespace Selector

def IsInner (ls : List Lexeme) : Prop := ls.map Lexeme.kind ∈ innerGrammar.matches'∗

def IsScopes (ls : List Lexeme) : Prop := ls.map Lexeme.kind ∈ grammar.matches'

variable {ls : List Lexeme}

theorem isInner_cons {l : Lexeme} : IsInner (l :: ls) ↔
    l.kind = .greaterThan ∧ ∃ name rest, ls = name :: rest ∧ name.kind = .ident ∧ IsInner rest := by
  rw [IsInner, List.map_cons, cons_mem_inner]
  refine and_congr_right fun _ => ?_
  constructor
  · rintro ⟨ks, hks, hm⟩
    obtain ⟨name, rest, rfl, hname, rfl⟩ := List.map_eq_cons_iff.mp hks
    exact ⟨name, rest, rfl, hname, hm⟩
  · rintro ⟨name, rest, rfl, hname, hm⟩
    exact ⟨_, by rw [List.map_cons, hname], hm⟩

theorem isInner_cons_cons {l name : Lexeme} :
    IsInner (l :: name :: ls) ↔ l.kind = .greaterThan ∧ name.kind = .ident ∧ IsInner ls := by
  simp [isInner_cons]

theorem isInner_nil : IsInner [] := nil_mem_inner

theorem isScopes_cons {l : Lexeme} : IsScopes (l :: ls) ↔ l.kind = .ident ∧ IsInner ls := cons_mem_grammar

theorem extends_separator {sep : Token} (hsep : sep.kind = .greaterThan) : Extends IsInner [sep.lexeme] :=
  ⟨[.ident], isInner_cons_cons.mpr ⟨hsep, rfl, isInner_nil⟩⟩

theorem scopesAfter_halts (ts : List Token) : FailsOnly (Halts IsInner ts) (scopesAfter ts) := by
  fun_induction scopesAfter ts with
  | case1 => exact .ok []
  | case2 sep hsep => exact .error (.ended (extends_separator hsep))
  | case3 sep hsep t rest ih =>
      refine .bind (nameOf_failsOnly fun ht => ?_) fun name hname => .bind (fun m hm => ?_) fun _ _ => .ok _
      · apply Halts.unexpected [sep] (extends_separator hsep)
        intro text rest h
        exact ht (isInner_cons_cons.mp h).2.1
      · obtain ⟨ht, _⟩ := nameOf_eq_ok.mp hname
        refine (ih m hm).append [sep, t] fun ls => ?_
        exact isInner_cons_cons.trans (by simp [Token.lexeme, hsep, ht])
  | case4 sep ts hsep =>
      apply FailsOnly.error
      apply Halts.unexpected []
      · exact ⟨[], isInner_nil⟩
      · intro text rest h
        exact hsep (isInner_cons.mp h).1

theorem ofTokens_halts (t : Token) (ts : List Token) : FailsOnly (Halts IsScopes (t :: ts)) (ofTokens t ts) := by
  refine .bind (nameOf_failsOnly fun ht => ?_) fun name hname => .bind (fun m hm => ?_) fun _ _ => .ok _
  · apply Halts.unexpected []
    · exact ⟨[.ident], isScopes_cons.mpr ⟨rfl, isInner_nil⟩⟩
    · intro text rest h
      exact ht (isScopes_cons.mp h).1
  · obtain ⟨ht, _⟩ := nameOf_eq_ok.mp hname
    refine (scopesAfter_halts ts m hm).append [t] fun ls => ?_
    exact isScopes_cons.trans (and_iff_right ht)

theorem parse_isOk_iff {text : String} :
    (∃ s, parse text = .ok s) ↔ ∃ ls, Address.lexemes text = some ls ∧ IsScopes ls := by
  constructor
  · rintro ⟨s, hs⟩
    obtain ⟨ls, hls, h⟩ := parse_eq_ok.mp hs
    exact ⟨ls, hls, h.grammar⟩
  · rintro ⟨ls, hls, h⟩
    obtain ⟨s, hs⟩ := exists_reads h
    exact ⟨s, parse_eq_ok.mpr ⟨ls, hls, hs⟩⟩

end Selector

namespace Path

def IsSteps (ls : List Lexeme) : Prop := ls.map Lexeme.kind ∈ stepGrammar.matches'∗ ∧ InRange ls

def IsPath (ls : List Lexeme) : Prop := ls.map Lexeme.kind ∈ grammar.matches' ∧ InRange ls

variable {ls : List Lexeme} {l name content closing : Lexeme}

theorem isSteps_nil : IsSteps [] := ⟨nil_mem_steps, nofun⟩

theorem IsSteps.head (h : IsSteps (l :: ls)) : l.kind = .dot ∨ l.kind = .bracketOpen :=
  (cons_mem_steps.mp h.1).imp And.left And.left

theorem isSteps_name (hl : l.kind = .dot) : IsSteps (l :: name :: ls) ↔ name.kind = .ident ∧ IsSteps ls := by
  simp only [IsSteps, List.map_cons, cons_mem_steps, inRange_cons, hl]
  grind

theorem IsSteps.contained (hl : l.kind = .bracketOpen) (h : IsSteps (l :: content :: ls)) :
    content.kind = .number ∨ content.kind = .ident := by
  have hm := h.1
  simp only [List.map_cons, cons_mem_steps, hl] at hm
  grind

theorem isSteps_bracket (hl : l.kind = .bracketOpen) : IsSteps (l :: content :: closing :: ls) ↔
    ((content.kind = .number ∨ content.kind = .ident) ∧ (content.kind = .number → decimal content.text < 2 ^ 64)) ∧
      closing.kind = .bracketClose ∧ IsSteps ls := by
  simp only [IsSteps, List.map_cons, cons_mem_steps, inRange_cons, hl]
  grind

theorem isPath_cons : IsPath (l :: ls) ↔ l.kind = .ident ∧ IsSteps ls := by
  simp only [IsPath, IsSteps, List.map_cons, cons_mem_grammar, inRange_cons]
  grind

theorem bracketed_failsOnly {P : Malformed → Prop} {t : Token}
    (hkind : ¬ (t.kind = .number ∨ t.kind = .ident) → P (.unexpected t .bracketContent))
    (hlarge : t.kind = .number → 2 ^ 64 ≤ decimal t.text → P (.indexTooLarge t.text t.offset)) :
    FailsOnly P (bracketed t) := by
  rw [bracketed]
  split
  case h_1 hk =>
    apply FailsOnly.map
    rw [indexOf]
    split
    · exact .ok _
    · rename_i hbound
      rw [ofDigitChars_eq_decimal] at hbound
      exact .error (hlarge hk (Nat.le_of_not_lt hbound))
  case h_2 => exact .ok _
  case h_3 hnumber hident => exact .error (hkind fun hk => hk.elim hnumber hident)

theorem extends_dot {dot : Token} (hdot : dot.kind = .dot) : Extends IsSteps [dot.lexeme] :=
  ⟨[.ident], (isSteps_name hdot).mpr ⟨rfl, isSteps_nil⟩⟩

theorem extends_bracket {bracket : Token} (hbracket : bracket.kind = .bracketOpen) :
    Extends IsSteps [bracket.lexeme] := by
  refine ⟨[.ident, .bracketClose], (isSteps_bracket hbracket).mpr ⟨⟨.inr rfl, ?_⟩, rfl, isSteps_nil⟩⟩
  intro hk
  cases hk

theorem extends_content {bracket content : Token} {segment : Segment} (hbracket : bracket.kind = .bracketOpen)
    (hsegment : bracketed content = .ok segment) : Extends IsSteps [bracket.lexeme, content.lexeme] := by
  obtain ⟨hk, hrange, _⟩ := bracketed_eq_ok.mp hsegment
  exact ⟨[.bracketClose], (isSteps_bracket hbracket).mpr ⟨⟨hk, hrange⟩, rfl, isSteps_nil⟩⟩

theorem bracketed_halts {bracket content : Token} (hbracket : bracket.kind = .bracketOpen) (rest : List Token) :
    FailsOnly (Halts IsSteps (bracket :: content :: rest)) (bracketed content) := by
  apply bracketed_failsOnly
  · intro hkind
    apply Halts.unexpected [bracket] (extends_bracket hbracket)
    intro text rest h
    exact hkind (h.contained hbracket)
  · intro hk hlarge
    exact .indexTooLarge [] hbracket hk hlarge (extends_bracket hbracket)

theorem stepsOf_halts (ts : List Token) : FailsOnly (Halts IsSteps ts) (stepsOf ts) := by
  fun_induction stepsOf ts with
  | case1 => exact .ok []
  | case2 dot hdot => exact .error (.ended (extends_dot hdot))
  | case3 dot hdot name rest ih =>
      refine .bind (nameOf_failsOnly fun hk => ?_) fun n hn => .bind (fun m hm => ?_) fun _ _ => .ok _
      · apply Halts.unexpected [dot] (extends_dot hdot)
        intro text rest h
        exact hk ((isSteps_name hdot).mp h).1
      · obtain ⟨hk, _⟩ := nameOf_eq_ok.mp hn
        refine (ih m hm).append [dot, name] fun ls => ?_
        exact (isSteps_name hdot).trans (and_iff_right hk)
  | case4 bracket hbracket => exact .error (.ended (extends_bracket hbracket))
  | case5 bracket hbracket content =>
      refine .bind (bracketed_halts hbracket []) fun segment hsegment => .error ?_
      exact .ended (extends_content hbracket hsegment)
  | case6 bracket hbracket content close rest ih =>
      refine .bind (bracketed_halts hbracket _) fun segment hsegment => ?_
      split
      · rename_i hclose
        obtain ⟨hk, hrange, _⟩ := bracketed_eq_ok.mp hsegment
        refine .bind (fun m hm => ?_) fun _ _ => .ok _
        refine (ih m hm).append [bracket, content, close] fun ls => ?_
        exact (isSteps_bracket hbracket).trans ((and_iff_right ⟨hk, hrange⟩).trans (and_iff_right hclose))
      · rename_i hclose
        apply FailsOnly.error
        apply Halts.unexpected [bracket, content] (extends_content hbracket hsegment)
        intro text rest h
        exact hclose ((isSteps_bracket hbracket).mp h).2.1
  | case7 t rest hdot hbracket =>
      apply FailsOnly.error
      apply Halts.unexpected []
      · exact ⟨[], isSteps_nil⟩
      · intro text rest h
        exact h.head.elim hdot hbracket

theorem ofTokens_halts (t : Token) (ts : List Token) : FailsOnly (Halts IsPath (t :: ts)) (ofTokens t ts) := by
  refine .bind (nameOf_failsOnly fun ht => ?_) fun name hname => .bind (fun m hm => ?_) fun _ _ => .ok _
  · apply Halts.unexpected []
    · exact ⟨[.ident], isPath_cons.mpr ⟨rfl, isSteps_nil⟩⟩
    · intro text rest h
      exact ht (isPath_cons.mp h).1
  · obtain ⟨ht, _⟩ := nameOf_eq_ok.mp hname
    refine (stepsOf_halts ts m hm).append [t] fun ls => ?_
    exact isPath_cons.trans (and_iff_right ht)

theorem parse_isOk_iff {text : String} :
    (∃ p, parse text = .ok p) ↔ ∃ ls, Address.lexemes text = some ls ∧ IsPath ls := by
  constructor
  · rintro ⟨p, hp⟩
    obtain ⟨ls, hls, h⟩ := parse_eq_ok.mp hp
    exact ⟨ls, hls, h.grammar, h.inRange⟩
  · rintro ⟨ls, hls, h, hrange⟩
    obtain ⟨p, hp⟩ := exists_reads h hrange
    exact ⟨p, parse_eq_ok.mpr ⟨ls, hls, hp⟩⟩

end Path

theorem Laid.append {cs ds : List Char} {ls ms : List Lexeme} (h : Laid cs ls)
    (hgap : ∀ c ∈ ds.head?, isBlank c = true) (hds : Laid ds ms) : Laid (cs ++ ds) (ls ++ ms) := by
  induction h with
  | nil => exact hds
  | blank hc _ ih => exact .blank hc ih
  | @lexeme l cs ls hl hend _ ih =>
      rw [List.append_assoc]
      refine .lexeme hl ?_ ih
      intro c hc
      cases cs with
      | nil =>
          apply Bool.eq_false_iff.mpr
          intro hgoes
          exact absurd (hgap c hc) (by simp [TokenKind.isBlank_of_goesOnWith hgoes])
      | cons => exact hend c hc

/-- A blank before each lexeme keeps it apart, whatever the one before it could go on with. -/
theorem laid_spaced {ls : List Lexeme} (hls : ∀ l ∈ ls, l.Proper) :
    Laid (ls.flatMap fun l => ' ' :: l.text.toList) ls := by
  induction ls with
  | nil => exact .nil
  | cons l ls ih =>
      obtain ⟨hl, hls⟩ := List.forall_mem_cons.mp hls
      apply Laid.blank rfl
      refine .lexeme hl ?_ (ih hls)
      intro c hc
      cases ls with
      | nil => cases hc
      | cons =>
          obtain rfl := Option.some.inj hc
          cases l.kind <;> rfl

/-- A word stays at the beginning of a token of its kind, whatever comes after it. -/
theorem scanFrom_word {k : TokenKind} {word more : List Char} {offset : Nat} {ts : List Token} (hword : k.Forms word)
    (h : scanFrom offset (word ++ more) = .ok ts) : ∃ text rest, ts.map Token.lexeme = ⟨k, text⟩ :: rest := by
  cases word with
  | nil => exact hword.elim
  | cons c word =>
      have hblank := TokenKind.isBlank_of_startingWith? hword.1
      rw [List.cons_append, scanFrom, if_neg (by simp [hblank]), hword.1] at h
      obtain ⟨us, _, rfl⟩ := map_eq_ok.mp h
      exact ⟨_, _, rfl⟩

/-- The text before a token has the tokens before it; they are before a token of that kind
in every text that goes on with the word. -/
theorem tokens_around {text : String} {pre post : List Token} {t : Token}
    (h : tokens text = .ok (pre ++ t :: post)) : ∃ before after, text = before ++ t.text ++ after ∧
      before.utf8ByteSize = t.offset ∧ tokens before = .ok pre ∧
      ∀ more ts, tokens (before ++ t.text ++ more) = .ok ts →
        ∃ word rest, ts.map Token.lexeme = pre.map Token.lexeme ++ ⟨t.kind, word⟩ :: rest := by
  obtain ⟨stop, hreach⟩ := scanFrom_eq_ok.mp h
  obtain ⟨before, after, htext, hoffset, hlongest, hsplice⟩ := hreach.around
  have hword := hlongest.forms
  refine ⟨before, after, htext, hoffset, scanFrom_eq_ok.mpr ⟨_, by simpa using hsplice []⟩, ?_⟩
  intro more ts hts
  have hhead : ∀ c ∈ (t.text.toList ++ more.toList).head?, c ∈ (t.text.toList ++ after.toList).head? := by
    cases hchars : t.text.toList with
    | nil => rw [hchars] at hword; exact hword.elim
    | cons => exact fun c hc => hc
  rw [tokens, String.toList_append, String.toList_append, List.append_assoc, (hsplice _ hhead).scanFrom_eq] at hts
  obtain ⟨us, hus, rfl⟩ := map_eq_ok.mp hts
  obtain ⟨word, rest, hrest⟩ := scanFrom_word hword hus
  exact ⟨word, rest, by rw [List.map_append, hrest]⟩

section

variable {α : Type} {A : List Lexeme → Prop} {read : Token → List Token → Except Malformed α} {text : String}

theorem viable_of_extends (hok : ∀ {text}, (∃ a, readTokens read text = .ok a) ↔ ∃ ls, lexemes text = some ls ∧ A ls)
    {ts : List Token} (hts : tokens text = .ok ts) (h : Extends A (ts.map Token.lexeme)) :
    Viable (readTokens read) text := by
  obtain ⟨ks, hks⟩ := h
  let more := (ks.map TokenKind.sample).flatMap fun l => ' ' :: l.text.toList
  have hmore : Laid more (ks.map TokenKind.sample) := by
    apply laid_spaced
    rw [List.forall_mem_map]
    exact fun k _ => k.proper_sample
  have hgap : ∀ c ∈ more.head?, isBlank c = true := by
    intro c hc
    cases ks with
    | nil => cases hc
    | cons => exact Option.some.inj hc ▸ rfl
  have hlaid : Laid (text ++ .ofList more).toList (ts.map Token.lexeme ++ ks.map TokenKind.sample) := by
    rw [String.toList_append, String.toList_ofList]
    exact (laid_of_scanFrom hts).append hgap hmore
  obtain ⟨a, ha⟩ := hok.mpr ⟨_, lexemes_eq_some_iff_laid.mpr hlaid, hks⟩
  exact ⟨_, a, ha⟩

theorem readTokens_eq_error {m : Malformed} : readTokens read text = .error m ↔
    (∃ s, tokens text = .error s ∧ .stray s = m) ∨ (tokens text = .ok [] ∧ .empty = m) ∨
      ∃ t ts, tokens text = .ok (t :: ts) ∧ read t ts = .error m := by
  rw [readTokens]
  cases h : tokens text with
  | error s => simp
  | ok ts => cases ts <;> simp

theorem halts_of_error (hhalts : ∀ t ts, FailsOnly (Halts A (t :: ts)) (read t ts)) {m : Malformed}
    (h : readTokens read text = .error m) : (∃ s, tokens text = .error s ∧ .stray s = m) ∨
      (tokens text = .ok [] ∧ .empty = m) ∨ ∃ ts, tokens text = .ok ts ∧ Halts A ts m := by
  refine (readTokens_eq_error.mp h).imp id (Or.imp id ?_)
  rintro ⟨t, ts, hts, hread⟩
  exact ⟨_, hts, hhalts t ts m hread⟩

/-- A reader of tokens that halts where they cannot be extended makes one of texts. -/
theorem Pinpoints.of_halts
    (hok : ∀ {text}, (∃ a, readTokens read text = .ok a) ↔ ∃ ls, lexemes text = some ls ∧ A ls)
    (hhalts : ∀ t ts, FailsOnly (Halts A (t :: ts)) (read t ts)) (text : String) :
    Pinpoints (readTokens read) text := by
  constructor
  case stray =>
    intro s
    constructor
    · intro h
      obtain ⟨s, hs, ⟨⟩⟩ | ⟨_, ⟨⟩⟩ | ⟨_, _, ⟨⟩⟩ := halts_of_error hhalts h
      exact hs
    · intro hs
      exact readTokens_eq_error.mpr (.inl ⟨s, hs, rfl⟩)
  case empty =>
    constructor
    · intro h
      obtain ⟨_, _, ⟨⟩⟩ | ⟨hnil, _⟩ | ⟨_, _, ⟨⟩⟩ := halts_of_error hhalts h
      exact hnil
    · intro hnil
      exact readTokens_eq_error.mpr (.inr (.inl ⟨hnil, rfl⟩))
  case unexpected =>
    intro t e h
    obtain ⟨_, _, ⟨⟩⟩ | ⟨_, ⟨⟩⟩ | ⟨_, hts, ⟨pre, hpre, hdead⟩⟩ := halts_of_error hhalts h
    obtain ⟨before, after, htext, hoffset, hbefore, haround⟩ := tokens_around hts
    refine ⟨⟨_, hts, by simp⟩, before, after, htext, hoffset, viable_of_extends hok hbefore hpre, ?_⟩
    rintro ⟨more, a, ha⟩
    obtain ⟨ls, hls, hA⟩ := hok.mp ⟨a, ha⟩
    obtain ⟨us, hus, rfl⟩ := lexemes_eq_some.mp hls
    obtain ⟨word, rest, hrest⟩ := haround more us hus
    exact hdead word rest (hrest ▸ hA)
  case ended =>
    intro e h
    obtain ⟨_, _, ⟨⟩⟩ | ⟨_, ⟨⟩⟩ | ⟨_, hts, hhalt⟩ := halts_of_error hhalts h
    cases hhalt with
    | ended hextends => exact ⟨viable_of_extends hok hts hextends, fun a ha => nomatch h.symm.trans ha⟩
  case indexTooLarge =>
    intro digits offset h
    obtain ⟨_, _, ⟨⟩⟩ | ⟨_, ⟨⟩⟩ | ⟨_, hts, hhalt⟩ := halts_of_error hhalts h
    cases hhalt with
    | @indexTooLarge pre post bracket t hbracket ht hlarge hpre =>
        have hsplit : tokens text = .ok ((pre ++ [bracket]) ++ t :: post) := by simp [hts]
        obtain ⟨before, after, htext, hoffset, hbefore, _⟩ := tokens_around hsplit
        refine ⟨hlarge, ⟨pre, bracket, post, ?_, hbracket⟩, before, after, htext, hoffset, ?_⟩
        · rw [hts, ← ht]
        · exact viable_of_extends hok hbefore (by simpa using hpre)

end

theorem Selector.isInner_kinds {ls : List Lexeme} (h : IsInner ls) :
    ∀ l ∈ ls, l.kind = .greaterThan ∨ l.kind = .ident := by
  intro l hl
  obtain ⟨pieces, heq, hpieces⟩ := Language.mem_kstar.mp h
  have hk := List.mem_map_of_mem (f := Lexeme.kind) hl
  rw [heq] at hk
  obtain ⟨ks, hks, hk⟩ := List.mem_flatten.mp hk
  simpa [mem_innerGrammar.mp (hpieces ks hks)] using hk

theorem Selector.not_mem_bracket {ls : List Lexeme} (h : IsScopes ls) : ∀ l ∈ ls, l.kind ≠ .bracketOpen := by
  cases ls with
  | nil => nofun
  | cons l ls =>
      obtain ⟨hl, hls⟩ := isScopes_cons.mp h
      rw [List.forall_mem_cons]
      refine ⟨by simp [hl], fun m hm => ?_⟩
      rcases isInner_kinds hls m hm with hk | hk <;> simp [hk]

/-- Both readers accept every beginning of an accepted text, up to the fault that they report. -/
theorem faults_are_pinpointed (text : String) :
    Pinpoints Selector.parse text ∧ Pinpoints Path.parse text ∧
      ∀ digits offset, Selector.parse text ≠ .error (.indexTooLarge digits offset) := by
  refine ⟨.of_halts Selector.parse_isOk_iff Selector.ofTokens_halts text,
    .of_halts Path.parse_isOk_iff Path.ofTokens_halts text, ?_⟩
  intro digits offset h
  obtain ⟨_, _, ⟨⟩⟩ | ⟨_, ⟨⟩⟩ | ⟨_, _, hhalt⟩ := halts_of_error Selector.ofTokens_halts h
  cases hhalt with
  | @indexTooLarge pre _ bracket _ hbracket _ _ hpre =>
      obtain ⟨ks, hks⟩ := hpre
      exact Selector.not_mem_bracket hks bracket.lexeme (by simp) hbracket

end ViewWiring.Address
