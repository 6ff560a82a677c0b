import Mathlib.Computability.RegularExpressions
import Mathlib.Data.Nat.Digits.Defs
import ViewWiring.Address.Path
import ViewWiring.Address.Selector
import ViewWiring.Proofs.Address.Layout

namespace ViewWiring.Address

open RegularExpression
open scoped Computability

def Selector.innerGrammar : RegularExpression TokenKind := char .greaterThan * char .ident

def Selector.grammar : RegularExpression TokenKind := char .ident * Selector.innerGrammar.star

def Path.stepGrammar : RegularExpression TokenKind :=
  char .dot * char .ident + char .bracketOpen * ((char .number + char .ident) * char .bracketClose)

def Path.grammar : RegularExpression TokenKind := char .ident * Path.stepGrammar.star

def namesIn (ls : List Lexeme) : List String :=
  (ls.filter fun l => l.kind = .ident).map Lexeme.text

def decimal (digits : String) : Nat :=
  Nat.ofDigits 10 (digits.toList.reverse.map fun c => c.toNat - '0'.toNat)

/-- What a lexeme stands for in a path, behind one of the kind `before`. -/
def Lexeme.segment? (before : Option TokenKind) (l : Lexeme) : Option Segment :=
  match l.kind with
  | .ident => some (if before = some .bracketOpen then .placeholder l.text else .key l.text)
  | .number => some (.index (decimal l.text))
  | _ => none

def segmentsIn : Option TokenKind → List Lexeme → List Segment
  | _, [] => []
  | before, l :: ls => (l.segment? before).toList ++ segmentsIn (some l.kind) ls

def InRange (ls : List Lexeme) : Prop := ∀ l ∈ ls, l.kind = .number → decimal l.text < 2 ^ 64

section

variable {α : Type} {r s q : RegularExpression α} {a : α} {x : List α}

theorem mem_char : x ∈ (char a).matches' ↔ x = [a] := Iff.rfl

theorem mem_char_mul : x ∈ (char a * r).matches' ↔ ∃ y ∈ r.matches', x = a :: y := by
  simp only [matches'_mul, Language.mem_mul, mem_char, exists_eq_left, List.singleton_append, eq_comm]

theorem mem_add_mul : x ∈ ((r + s) * q).matches' ↔ x ∈ (r * q).matches' ∨ x ∈ (s * q).matches' := by
  rw [matches'_mul, matches'_add, add_mul, Language.mem_add, ← matches'_mul, ← matches'_mul]

theorem mem_kstar {l : Language α} : x ∈ l∗ ↔ x = [] ∨ ∃ y ∈ l, ∃ z ∈ l∗, y ++ z = x := by
  rw [← Language.mem_mul, ← Language.mem_one, ← Language.mem_add,
    Language.one_add_self_mul_kstar_eq_kstar]

end

theorem ofDigitChars_eq_decimal (digits : String) :
    Nat.ofDigitChars 10 digits.toList 0 = decimal digits := by
  rw [decimal]
  induction digits.toList using List.reverseRecOn with
  | nil => rfl
  | append_singleton cs c ih =>
      rw [Nat.ofDigitChars_append, Nat.ofDigitChars_cons, Nat.ofDigitChars_nil, ih, List.reverse_append,
        List.reverse_singleton, List.singleton_append, List.map_cons, Nat.ofDigits_cons, Nat.add_comm]

theorem indexOf_eq_ok {t : Token} {i : Nat} :
    indexOf t = .ok i ↔ decimal t.text < 2 ^ 64 ∧ decimal t.text = i := by
  have hbound : indexBound = 2 ^ 64 := by decide
  rw [indexOf, ofDigitChars_eq_decimal, hbound]
  split <;> simp only [*, Except.ok.injEq, reduceCtorEq, true_and, false_and]

theorem namesIn_cons (l : Lexeme) (ls : List Lexeme) :
    namesIn (l :: ls) = if l.kind = .ident then l.text :: namesIn ls else namesIn ls := by
  by_cases h : l.kind = .ident <;> simp [namesIn, h]

theorem inRange_cons {l : Lexeme} {ls : List Lexeme} :
    InRange (l :: ls) ↔ (l.kind = .number → decimal l.text < 2 ^ 64) ∧ InRange ls :=
  List.forall_mem_cons

theorem nameOf_eq_ok {e : Expected} {t : Token} {name : String} :
    nameOf e t = .ok name ↔ t.kind = .ident ∧ t.text = name := by
  by_cases h : t.kind = .ident <;> simp [nameOf, h]

theorem readTokens_eq_ok {α : Type} {read : Token → List Token → Except Malformed α} {text : String}
    {a : α} :
    readTokens read text = .ok a ↔ ∃ t ts, tokens text = .ok (t :: ts) ∧ read t ts = .ok a := by
  rw [readTokens]
  cases h : tokens text with
  | error s => simp
  | ok ts => cases ts <;> simp

/-- What a grammar needs to know of a text are its lexemes. -/
theorem readTokens_eq_ok_iff {α : Type} {read : Token → List Token → Except Malformed α}
    {P : List Lexeme → α → Prop} (hnil : ∀ a, ¬ P [] a)
    (hread : ∀ t ts a, read t ts = .ok a ↔ P (Token.lexeme t :: ts.map Token.lexeme) a)
    {text : String} {a : α} :
    readTokens read text = .ok a ↔ ∃ ls, lexemes text = some ls ∧ P ls a := by
  rw [readTokens_eq_ok]
  constructor
  · rintro ⟨t, ts, hts, ha⟩
    exact ⟨_, lexemes_eq_some.mpr ⟨_, hts, rfl⟩, (hread t ts a).mp ha⟩
  · rintro ⟨ls, hls, ha⟩
    obtain ⟨ts, hts, rfl⟩ := lexemes_eq_some.mp hls
    cases ts with
    | nil => exact (hnil a ha).elim
    | cons t ts => exact ⟨t, ts, hts, (hread t ts a).mpr ha⟩

namespace Selector

theorem mem_innerGrammar {ks : List TokenKind} :
    ks ∈ innerGrammar.matches' ↔ ks = [.greaterThan, .ident] := by
  simp only [innerGrammar, mem_char_mul, mem_char, exists_eq_left]

theorem nil_mem_inner : [] ∈ innerGrammar.matches'∗ := mem_kstar.mpr (.inl rfl)

theorem cons_mem_inner {k : TokenKind} {ks : List TokenKind} : k :: ks ∈ innerGrammar.matches'∗ ↔
    k = .greaterThan ∧ ∃ rest, ks = .ident :: rest ∧ rest ∈ innerGrammar.matches'∗ := by
  rw [mem_kstar]
  simp only [mem_innerGrammar, exists_eq_left, reduceCtorEq, false_or, List.cons_append, List.nil_append,
    List.cons.injEq]
  grind

theorem scopesAfter_eq_ok {ts : List Token} {names : List String} :
    scopesAfter ts = .ok names ↔
      ts.map Token.kind ∈ innerGrammar.matches'∗ ∧ namesIn (ts.map Token.lexeme) = names := by
  fun_induction scopesAfter ts generalizing names with
  | case1 => simp [nil_mem_inner, namesIn]
  | case2 sep hsep => simp [cons_mem_inner]
  | case3 sep hsep t rest ih =>
      have hkinds : (sep :: t :: rest).map Token.kind ∈ innerGrammar.matches'∗ ↔
          t.kind = .ident ∧ rest.map Token.kind ∈ innerGrammar.matches'∗ := by
        simp [cons_mem_inner, hsep]
      rw [hkinds]
      by_cases ht : t.kind = .ident
      · simp [bind_eq_ok, nameOf_eq_ok, ih, ht, hsep, namesIn_cons, Token.lexeme, pure, Except.pure]
      · simp [bind_eq_ok, nameOf_eq_ok, ht]
  | case4 sep ts hsep => simp [cons_mem_inner, hsep]

theorem cons_mem_grammar {k : TokenKind} {ks : List TokenKind} :
    k :: ks ∈ grammar.matches' ↔ k = .ident ∧ ks ∈ innerGrammar.matches'∗ := by
  rw [grammar, mem_char_mul, matches'_star]
  simp [and_comm]

structure Reads (ls : List Lexeme) (s : Selector) : Prop where
  grammar : ls.map Lexeme.kind ∈ grammar.matches'
  scopes : s.scopes = namesIn ls

theorem reads_cons {l : Lexeme} {ls : List Lexeme} {s : Selector} : Reads (l :: ls) s ↔ l.kind = .ident ∧
    s.outermost = l.text ∧ ls.map Lexeme.kind ∈ innerGrammar.matches'∗ ∧ s.inner = namesIn ls := by
  have hcons : Reads (l :: ls) s ↔
      (l :: ls).map Lexeme.kind ∈ Selector.grammar.matches' ∧ s.scopes = namesIn (l :: ls) :=
    ⟨fun h => ⟨h.grammar, h.scopes⟩, fun h => ⟨h.1, h.2⟩⟩
  rw [hcons, List.map_cons, cons_mem_grammar, namesIn_cons, Selector.scopes]
  grind

theorem not_reads_nil (s : Selector) : ¬ Reads [] s := fun h => nomatch h.scopes

theorem ofTokens_eq_ok {t : Token} {ts : List Token} {s : Selector} :
    ofTokens t ts = .ok s ↔ Reads (t.lexeme :: ts.map Token.lexeme) s := by
  simp only [ofTokens, bind_eq_ok, nameOf_eq_ok, scopesAfter_eq_ok, reads_cons, pure, Except.pure,
    Except.ok.injEq]
  rw [List.map_map]
  obtain ⟨outermost, inner⟩ := s
  constructor
  · rintro ⟨_, ⟨hk, rfl⟩, _, ⟨hm, rfl⟩, heq⟩
    cases heq
    exact ⟨hk, rfl, hm, rfl⟩
  · rintro ⟨hk, rfl, hm, rfl⟩
    exact ⟨_, ⟨hk, rfl⟩, _, ⟨hm, rfl⟩, rfl⟩

theorem parse_eq_ok {text : String} {s : Selector} :
    parse text = .ok s ↔ ∃ ls, lexemes text = some ls ∧ Reads ls s :=
  readTokens_eq_ok_iff not_reads_nil fun _ _ _ => ofTokens_eq_ok

theorem exists_reads {ls : List Lexeme} (h : ls.map Lexeme.kind ∈ grammar.matches') : ∃ s, Reads ls s := by
  cases ls with
  | nil => obtain ⟨_, _, hnil⟩ := mem_char_mul.mp h; cases hnil
  | cons l ls =>
      obtain ⟨hk, hm⟩ := cons_mem_grammar.mp h
      exact ⟨⟨l.text, namesIn ls⟩, reads_cons.mpr ⟨hk, rfl, hm, rfl⟩⟩

end Selector

namespace Path

theorem mem_stepGrammar {ks : List TokenKind} : ks ∈ stepGrammar.matches' ↔
    ks = [.dot, .ident] ∨ ks = [.bracketOpen, .number, .bracketClose] ∨
      ks = [.bracketOpen, .ident, .bracketClose] := by
  rw [stepGrammar, matches'_add, Language.mem_add]
  simp only [mem_char_mul, mem_add_mul, mem_char, exists_eq_left, or_and_right, exists_or]

theorem nil_mem_steps : [] ∈ stepGrammar.matches'∗ := mem_kstar.mpr (.inl rfl)

theorem cons_mem_steps {k : TokenKind} {ks : List TokenKind} : k :: ks ∈ stepGrammar.matches'∗ ↔
    (k = .dot ∧ ∃ rest, ks = .ident :: rest ∧ rest ∈ stepGrammar.matches'∗) ∨
    (k = .bracketOpen ∧ ∃ content rest, ks = content :: .bracketClose :: rest ∧
      (content = .number ∨ content = .ident) ∧ rest ∈ stepGrammar.matches'∗) := by
  rw [mem_kstar]
  simp only [mem_stepGrammar, or_and_right, exists_or, exists_eq_left, reduceCtorEq, false_or,
    List.cons_append, List.nil_append, List.cons.injEq]
  grind

theorem segment?_isSome (before : Option TokenKind) {t : Token}
    (h : t.kind = .number ∨ t.kind = .ident) :
    (t.lexeme.segment? before).isSome := by
  rcases h with h | h <;> simp [Token.lexeme, Lexeme.segment?, h]

theorem bracketed_eq_ok {t : Token} {segment : Segment} : bracketed t = .ok segment ↔
    (t.kind = .number ∨ t.kind = .ident) ∧ (t.kind = .number → decimal t.text < 2 ^ 64) ∧
      t.lexeme.segment? (some .bracketOpen) = some segment := by
  rw [bracketed]
  split
  · rename_i hk
    simp [map_eq_ok, indexOf_eq_ok, Token.lexeme, Lexeme.segment?, hk]
  · rename_i hk
    simp [Token.lexeme, Lexeme.segment?, hk]
  · rename_i hnumber hident
    simp [show t.kind ≠ .number from hnumber, show t.kind ≠ .ident from hident]

theorem segmentsIn_key (before : Option TokenKind) {dot name : Lexeme} (hdot : dot.kind = .dot)
    (hname : name.kind = .ident) (ls : List Lexeme) :
    segmentsIn before (dot :: name :: ls) = .key name.text :: segmentsIn (some .ident) ls := by
  simp [segmentsIn, Lexeme.segment?, hdot, hname]

theorem segmentsIn_bracket (before : Option TokenKind) {opening content closing : Lexeme}
    (ho : opening.kind = .bracketOpen) (hc : closing.kind = .bracketClose) (ls : List Lexeme) :
    segmentsIn before (opening :: content :: closing :: ls) =
      (content.segment? (some .bracketOpen)).toList ++ segmentsIn (some .bracketClose) ls := by
  simp [segmentsIn, Lexeme.segment?, ho, hc]

/-- Steps are read as they are written, with the numbers that they denote. What
stands before the first of them makes no difference. -/
theorem stepsOf_eq_ok {ts : List Token} {steps : List Segment} (before : Option TokenKind) :
    stepsOf ts = .ok steps ↔ ts.map Token.kind ∈ stepGrammar.matches'∗ ∧
      InRange (ts.map Token.lexeme) ∧ segmentsIn before (ts.map Token.lexeme) = steps := by
  fun_induction stepsOf ts generalizing steps before with
  | case1 => simp [nil_mem_steps, InRange, segmentsIn]
  | case2 dot hdot => simp [cons_mem_steps]
  | case3 dot hdot name rest =>
      rename_i ih
      have hkinds : (dot :: name :: rest).map Token.kind ∈ stepGrammar.matches'∗ ↔
          name.kind = .ident ∧ rest.map Token.kind ∈ stepGrammar.matches'∗ := by
        simp [cons_mem_steps, hdot]
      rw [hkinds]
      by_cases hname : name.kind = .ident
      · have hdot' : dot.lexeme.kind = .dot := hdot
        have hname' : name.lexeme.kind = .ident := hname
        simp only [List.map_cons, segmentsIn_key before hdot' hname', inRange_cons]
        simp [bind_eq_ok, nameOf_eq_ok, ih (some .ident), hdot, hname, pure, Except.pure, Token.lexeme,
          and_assoc]
      · simp [bind_eq_ok, nameOf_eq_ok, hname]
  | case4 bracket hb => simp [cons_mem_steps]
  | case5 bracket hb content => simp [cons_mem_steps, bind_eq_ok, hb]
  | case6 bracket hb content close rest =>
      rename_i ih
      have hkinds : (bracket :: content :: close :: rest).map Token.kind ∈ stepGrammar.matches'∗ ↔
          close.kind = .bracketClose ∧ (content.kind = .number ∨ content.kind = .ident) ∧
            rest.map Token.kind ∈ stepGrammar.matches'∗ := by
        simp [cons_mem_steps, hb, and_assoc]
      rw [hkinds]
      by_cases hclose : close.kind = .bracketClose
      · have hb' : bracket.lexeme.kind = .bracketOpen := hb
        have hclose' : close.lexeme.kind = .bracketClose := hclose
        simp only [hclose, if_true, bind_eq_ok, bracketed_eq_ok, ih (some .bracketClose), List.map_cons,
          segmentsIn_bracket before hb' hclose', inRange_cons, pure, Except.pure, Except.ok.injEq]
        constructor
        · rintro ⟨segment, ⟨hk, hlt, hs⟩, _, ⟨hm, hrange, rfl⟩, rfl⟩
          exact ⟨⟨trivial, hk, hm⟩, ⟨by simp [hb'], hlt, by simp [hclose'], hrange⟩, by rw [hs]; rfl⟩
        · rintro ⟨⟨_, hk, hm⟩, ⟨_, hlt, _, hrange⟩, rfl⟩
          obtain ⟨segment, hs⟩ := Option.isSome_iff_exists.mp (segment?_isSome (some .bracketOpen) hk)
          exact ⟨segment, ⟨hk, hlt, hs⟩, _, ⟨hm, hrange, rfl⟩, by rw [hs]; rfl⟩
      · simp [bind_eq_ok, hclose]
  | case7 t rest hdot hbracket =>
      simp [cons_mem_steps, show t.kind ≠ .dot from hdot, show t.kind ≠ .bracketOpen from hbracket]

theorem cons_mem_grammar {k : TokenKind} {ks : List TokenKind} :
    k :: ks ∈ grammar.matches' ↔ k = .ident ∧ ks ∈ stepGrammar.matches'∗ := by
  rw [grammar, mem_char_mul, matches'_star]
  simp [and_comm]

structure Reads (ls : List Lexeme) (p : Path) : Prop where
  grammar : ls.map Lexeme.kind ∈ grammar.matches'
  inRange : InRange ls
  segments : p.segments = segmentsIn none ls

theorem reads_cons {l : Lexeme} {ls : List Lexeme} {p : Path} : Reads (l :: ls) p ↔ l.kind = .ident ∧
    p.field = l.text ∧ ls.map Lexeme.kind ∈ stepGrammar.matches'∗ ∧ InRange ls ∧
      p.steps = segmentsIn (some .ident) ls := by
  have hcons : Reads (l :: ls) p ↔ (l :: ls).map Lexeme.kind ∈ Path.grammar.matches' ∧ InRange (l :: ls) ∧
      p.segments = segmentsIn none (l :: ls) :=
    ⟨fun h => ⟨h.grammar, h.inRange, h.segments⟩, fun h => ⟨h.1, h.2.1, h.2.2⟩⟩
  rw [hcons, List.map_cons, cons_mem_grammar, inRange_cons]
  constructor
  · rintro ⟨⟨hk, hm⟩, ⟨_, hrange⟩, hs⟩
    simp [Path.segments, segmentsIn, Lexeme.segment?, hk] at hs
    exact ⟨hk, hs.1, hm, hrange, hs.2⟩
  · rintro ⟨hk, hf, hm, hrange, hs⟩
    refine ⟨⟨hk, hm⟩, ⟨by simp [hk], hrange⟩, ?_⟩
    simp [Path.segments, segmentsIn, Lexeme.segment?, hk, hf, hs]

theorem not_reads_nil (p : Path) : ¬ Reads [] p := fun h => nomatch h.segments

theorem ofTokens_eq_ok {t : Token} {ts : List Token} {p : Path} :
    ofTokens t ts = .ok p ↔ Reads (t.lexeme :: ts.map Token.lexeme) p := by
  simp only [ofTokens, bind_eq_ok, nameOf_eq_ok, stepsOf_eq_ok (some .ident), reads_cons, pure, Except.pure,
    Except.ok.injEq]
  rw [List.map_map]
  obtain ⟨field, steps⟩ := p
  constructor
  · rintro ⟨_, ⟨hk, rfl⟩, _, ⟨hm, hrange, rfl⟩, heq⟩
    cases heq
    exact ⟨hk, rfl, hm, hrange, rfl⟩
  · rintro ⟨hk, rfl, hm, hrange, rfl⟩
    exact ⟨_, ⟨hk, rfl⟩, _, ⟨hm, hrange, rfl⟩, rfl⟩

theorem parse_eq_ok {text : String} {p : Path} :
    parse text = .ok p ↔ ∃ ls, lexemes text = some ls ∧ Reads ls p :=
  readTokens_eq_ok_iff not_reads_nil fun _ _ _ => ofTokens_eq_ok

theorem exists_reads {ls : List Lexeme} (h : ls.map Lexeme.kind ∈ grammar.matches') (hrange : InRange ls) :
    ∃ p, Reads ls p := by
  cases ls with
  | nil => obtain ⟨_, _, hnil⟩ := mem_char_mul.mp h; cases hnil
  | cons l ls =>
      obtain ⟨hk, hm⟩ := cons_mem_grammar.mp h
      exact ⟨⟨l.text, segmentsIn (some .ident) ls⟩,
        reads_cons.mpr ⟨hk, rfl, hm, (inRange_cons.mp hrange).2, rfl⟩⟩

end Path

/-- A text is accepted if its lexemes, read as a word, are in the grammar and
its numbers are in range; then each lexeme stands for what it says. Blanks
between the lexemes are not looked at. -/
theorem parsers_accept_their_grammars (text : String) :
    ((∃ s, Selector.parse text = .ok s) ↔
      ∃ ls, lexemes text = some ls ∧ ls.map Lexeme.kind ∈ Selector.grammar.matches') ∧
    (∀ s, Selector.parse text = .ok s → ∃ ls, lexemes text = some ls ∧ s.scopes = namesIn ls) ∧
    ((∃ p, Path.parse text = .ok p) ↔
      ∃ ls, lexemes text = some ls ∧ ls.map Lexeme.kind ∈ Path.grammar.matches' ∧ InRange ls) ∧
    (∀ p, Path.parse text = .ok p → ∃ ls, lexemes text = some ls ∧ p.segments = segmentsIn none ls) ∧
    ∀ other ls, Laid text.toList ls → Laid other.toList ls →
      (Selector.parse text).toOption = (Selector.parse other).toOption ∧
      (Path.parse text).toOption = (Path.parse other).toOption := by
  refine ⟨⟨?_, ?_⟩, ?_, ⟨?_, ?_⟩, ?_, ?_⟩
  · rintro ⟨s, hs⟩
    obtain ⟨ls, hls, h⟩ := Selector.parse_eq_ok.mp hs
    exact ⟨ls, hls, h.grammar⟩
  · rintro ⟨ls, hls, h⟩
    obtain ⟨s, hs⟩ := Selector.exists_reads h
    exact ⟨s, Selector.parse_eq_ok.mpr ⟨ls, hls, hs⟩⟩
  · intro s hs
    obtain ⟨ls, hls, h⟩ := Selector.parse_eq_ok.mp hs
    exact ⟨ls, hls, h.scopes⟩
  · rintro ⟨p, hp⟩
    obtain ⟨ls, hls, h⟩ := Path.parse_eq_ok.mp hp
    exact ⟨ls, hls, h.grammar, h.inRange⟩
  · rintro ⟨ls, hls, h, hrange⟩
    obtain ⟨p, hp⟩ := Path.exists_reads h hrange
    exact ⟨p, Path.parse_eq_ok.mpr ⟨ls, hls, hp⟩⟩
  · intro p hp
    obtain ⟨ls, hls, h⟩ := Path.parse_eq_ok.mp hp
    exact ⟨ls, hls, h.segments⟩
  · intro other ls htext hother
    have hsame : lexemes text = lexemes other :=
      (lexemes_eq_some_iff_laid.mpr htext).trans (lexemes_eq_some_iff_laid.mpr hother).symm
    constructor
    · apply Option.ext
      intro s
      rw [toOption_eq_some, toOption_eq_some, Selector.parse_eq_ok, Selector.parse_eq_ok, hsame]
    · apply Option.ext
      intro p
      rw [toOption_eq_some, toOption_eq_some, Path.parse_eq_ok, Path.parse_eq_ok, hsame]

end ViewWiring.Address
