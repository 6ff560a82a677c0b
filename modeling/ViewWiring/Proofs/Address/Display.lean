import Mathlib.Data.Set.Function
import ViewWiring.Proofs.Address.Grammar

namespace ViewWiring.Address

open scoped Computability

namespace TokenKind

def mark? : TokenKind → Option Char
  | dot => some '.'
  | bracketOpen => some '['
  | bracketClose => some ']'
  | greaterThan => some '>'
  | number | ident => none

theorem eq_mark {k : TokenKind} {c m : Char} (hc : startingWith? c = some k) (hm : k.mark? = some m) :
    c = m := by
  simp only [startingWith?] at hc
  grind [mark?]

theorem goesOnWith_mark {k : TokenKind} {m : Char} (hm : k.mark? = some m) (c : Char) :
    k.goesOnWith c = false := by
  cases k <;> first | rfl | cases hm

theorem isBlank_of_goesOnWith {k : TokenKind} {c : Char} (h : k.goesOnWith c = true) : isBlank c = false := by
  apply Bool.eq_false_iff.mpr
  intro hc
  rcases blank_cases hc with rfl | rfl | rfl | rfl | rfl <;> cases k <;> cases h

end TokenKind

def IsName (name : String) : Prop := Lexeme.Proper ⟨.ident, name⟩

def Plain (digits : String) : Prop := digits.toList.head? = some '0' → digits = "0"

namespace Lexeme

structure Neat (l : Lexeme) : Prop where
  proper : l.Proper
  plain : l.kind = .number → Plain l.text

variable {l : Lexeme}

theorem Proper.text_eq (hl : l.Proper) {m : Char} (hm : l.kind.mark? = some m) : l.text = .ofList [m] := by
  rw [Proper] at hl
  cases hchars : l.text.toList with
  | nil => rw [hchars] at hl; exact hl.elim
  | cons c cs =>
      obtain ⟨hc, hcs⟩ : l.kind.Forms (c :: cs) := hchars ▸ hl
      have hnil : cs = [] := by
        cases cs with
        | nil => rfl
        | cons d cs => exact absurd (hcs d List.mem_cons_self) (by simp [TokenKind.goesOnWith_mark hm])
      rw [← String.ofList_toList (s := l.text), hchars, hnil, TokenKind.eq_mark hc hm]

theorem Proper.eq_mark (hl : l.Proper) {k : TokenKind} {m : Char} (hk : l.kind = k) (hm : k.mark? = some m) :
    l = ⟨k, .ofList [m]⟩ := by
  obtain ⟨kind, text⟩ := l
  obtain rfl : kind = k := hk
  exact congrArg (Lexeme.mk kind) (hl.text_eq hm)

theorem Proper.not_blank (hl : l.Proper) : ∀ c ∈ l.text.toList, isBlank c = false := by
  intro c hc
  cases hchars : l.text.toList with
  | nil => simp [hchars] at hc
  | cons d cs =>
      obtain ⟨hd, hcs⟩ : l.kind.Forms (d :: cs) := hchars ▸ hl
      rw [hchars] at hc
      rcases List.mem_cons.mp hc with rfl | hc
      · exact TokenKind.isBlank_of_startingWith? hd
      · exact TokenKind.isBlank_of_goesOnWith (hcs c hc)

theorem Proper.digits (hl : l.Proper) (hk : l.kind = .number) :
    l.text.toList ≠ [] ∧ ∀ c ∈ l.text.toList, c.isDigit = true := by
  cases hchars : l.text.toList with
  | nil => rw [Proper, hchars] at hl; exact hl.elim
  | cons d cs =>
      obtain ⟨hd, hcs⟩ : l.kind.Forms (d :: cs) := hchars ▸ hl
      rw [hk] at hd hcs
      refine ⟨List.cons_ne_nil _ _, ?_⟩
      intro c hc
      rcases List.mem_cons.mp hc with rfl | hc
      · simp only [TokenKind.startingWith?] at hd
        grind
      · exact hcs c hc

end Lexeme

section

variable {c : Char} {cs : List Char}

theorem digit_lt (h : c.isDigit = true) : c.toNat - '0'.toNat < 10 := by
  obtain ⟨_, hhigh⟩ := Char.isDigit_iff_toNat.mp h
  simp at hhigh ⊢
  omega

theorem toDigits_digit (h : c.isDigit = true) : Nat.toDigits 10 (c.toNat - '0'.toNat) = [c] := by
  have hlow : 48 ≤ c.toNat := (Char.isDigit_iff_toNat.mp h).1
  have hchar : (c.toNat - '0'.toNat).digitChar = c := by
    apply Char.toNat_inj.mp
    rw [Nat.toNat_digitChar_of_lt_ten (digit_lt h)]
    exact Nat.add_sub_cancel' hlow
  rw [Nat.toDigits_of_lt_base (digit_lt h), hchar]

/-- A number is printed with the digits that denote it, unless they start with
a zero. -/
theorem toDigits_ofDigitChars (hne : cs ≠ []) (hdigits : ∀ c ∈ cs, c.isDigit = true)
    (hzero : cs.head? ≠ some '0') :
    0 < Nat.ofDigitChars 10 cs 0 ∧ Nat.toDigits 10 (Nat.ofDigitChars 10 cs 0) = cs := by
  induction cs using List.reverseRecOn with
  | nil => exact (hne rfl).elim
  | append_singleton cs c ih =>
      have hc : c.isDigit = true := hdigits c (by simp)
      rw [Nat.ofDigitChars_append, Nat.ofDigitChars_cons, Nat.ofDigitChars_nil]
      cases cs with
      | nil =>
          have hne : c.toNat ≠ '0'.toNat := fun h => hzero (by simp [Char.toNat_inj.mp h])
          have hlow := (Char.isDigit_iff_toNat.mp hc).1
          simp only [Nat.ofDigitChars_nil, Nat.mul_zero, Nat.zero_add, List.nil_append]
          exact ⟨by omega, toDigits_digit hc⟩
      | cons d cs =>
          have hdigits' : ∀ a ∈ d :: cs, a.isDigit = true :=
            fun a ha => hdigits a (List.mem_append_left _ ha)
          obtain ⟨hpos, hcs⟩ := ih (List.cons_ne_nil _ _) hdigits' hzero
          refine ⟨by omega, ?_⟩
          rw [← Nat.toDigits_append_toDigits (by decide) hpos (digit_lt hc), hcs, toDigits_digit hc]

theorem toString_decimal {digits : String} (hne : digits.toList ≠ [])
    (hdigits : ∀ c ∈ digits.toList, c.isDigit = true) (hplain : Plain digits) :
    toString (decimal digits) = digits := by
  rw [Nat.toString_eq_ofList_toDigits, ← ofDigitChars_eq_decimal]
  by_cases hzero : digits.toList.head? = some '0'
  · rw [hplain hzero]; decide
  · rw [(toDigits_ofDigitChars hne hdigits hzero).2, String.ofList_toList]

theorem toList_toString (i : Nat) : (toString i).toList = Nat.toDigits 10 i := by
  rw [Nat.toString_eq_ofList_toDigits, String.toList_ofList]

theorem decimal_toString (i : Nat) : decimal (toString i) = i := by
  rw [← ofDigitChars_eq_decimal, toList_toString, Nat.ofDigitChars_ten_toDigits]

theorem proper_toString (i : Nat) : Lexeme.Proper ⟨.number, toString i⟩ := by
  have hdigits : ∀ c ∈ Nat.toDigits 10 i, c.isDigit = true :=
    fun c hc => Nat.isDigit_of_mem_toDigits (by decide) (by decide) hc
  rw [Lexeme.Proper, toList_toString]
  cases hd : Nat.toDigits 10 i with
  | nil => exact Nat.toDigits_ne_nil hd
  | cons c cs =>
      rw [hd] at hdigits
      exact ⟨if_pos (hdigits c List.mem_cons_self), fun d hd => hdigits d (List.mem_cons_of_mem _ hd)⟩

theorem plain_toString (i : Nat) : Plain (toString i) := by
  rw [Plain, toList_toString, Nat.toString_eq_ofList_toDigits]
  induction i using Nat.strongRecOn with
  | ind i ih =>
      intro hhead
      by_cases hi : i < 10
      · rw [Nat.toDigits_of_lt_base hi] at hhead ⊢
        rw [Option.some.inj hhead]
      · have hsplit := Nat.toDigits_of_base_le (by decide) (Nat.le_of_not_lt hi)
        rw [hsplit, List.head?_append_of_ne_nil _ Nat.toDigits_ne_nil] at hhead
        have hzero := ih (i / 10) (by omega) hhead
        have hval : i / 10 = 0 := by
          rw [← Nat.ofDigitChars_ten_toDigits (n := i / 10),
            ← String.toList_ofList (l := Nat.toDigits 10 (i / 10)), hzero]
          rfl
        omega

end

theorem laid_mark {k : TokenKind} {m : Char} (hm : k.mark? = some m) {cs : List Char} {ls : List Lexeme}
    (h : Laid cs ls) : Laid (m :: cs) (⟨k, .ofList [m]⟩ :: ls) := by
  have hproper : Lexeme.Proper ⟨k, .ofList [m]⟩ := by
    rw [Lexeme.Proper, String.toList_ofList]
    refine ⟨?_, by simp⟩
    cases k <;> cases hm <;> rfl
  simpa using Laid.lexeme (l := ⟨k, .ofList [m]⟩) hproper (fun c _ => TokenKind.goesOnWith_mark hm c) h

namespace Segment

def lexemes : Segment → List Lexeme
  | key name => [⟨.dot, "."⟩, ⟨.ident, name⟩]
  | index i => [⟨.bracketOpen, "["⟩, ⟨.number, toString i⟩, ⟨.bracketClose, "]"⟩]
  | placeholder name => [⟨.bracketOpen, "["⟩, ⟨.ident, name⟩, ⟨.bracketClose, "]"⟩]

theorem number_of_mem_lexemes {s : Segment} {l : Lexeme} (hl : l ∈ s.lexemes) (hk : l.kind = .number) :
    ∃ i, s = .index i ∧ l.text = toString i := by
  cases s with
  | key name | placeholder name =>
      simp only [lexemes, List.mem_cons, List.not_mem_nil, or_false] at hl
      rcases hl with rfl | rfl | rfl <;> cases hk
  | index i =>
      simp only [lexemes, List.mem_cons, List.not_mem_nil, or_false] at hl
      rcases hl with rfl | rfl | rfl
      · cases hk
      · exact ⟨i, rfl, rfl⟩
      · cases hk

def Readable : Segment → Prop
  | key name | placeholder name => IsName name
  | index i => i < 2 ^ 64

theorem laid_bracketed {l : Lexeme} (hl : l.Proper) (hend : l.kind.goesOnWith ']' = false) {cs : List Char}
    {ls : List Lexeme} (h : Laid cs ls) :
    Laid ('[' :: (l.text.toList ++ ']' :: cs)) (⟨.bracketOpen, "["⟩ :: l :: ⟨.bracketClose, "]"⟩ :: ls) := by
  apply laid_mark rfl
  apply Laid.lexeme (l := l) hl
  · intro c hc
    exact Option.some.inj hc ▸ hend
  · exact laid_mark rfl h

theorem laid_text {s : Segment} (hs : s.Readable) {cs : List Char} {ls : List Lexeme}
    (hend : ∀ c ∈ cs.head?, isNamePart c = false) (h : Laid cs ls) :
    Laid (s.text.toList ++ cs) (s.lexemes ++ ls) := by
  cases s with
  | key name =>
      have hname : Laid (name.toList ++ cs) (⟨.ident, name⟩ :: ls) := .lexeme (l := ⟨.ident, name⟩) hs hend h
      simpa [text, lexemes] using laid_mark (k := .dot) rfl hname
  | index i => simpa [text, lexemes] using laid_bracketed (proper_toString i) rfl h
  | placeholder name => simpa [text, lexemes] using laid_bracketed (l := ⟨.ident, name⟩) hs rfl h

theorem head?_texts {ss : List Segment} {c : Char} (hc : c ∈ (ss.flatMap fun s => s.text.toList).head?) :
    isNamePart c = false := by
  cases ss with
  | nil => cases hc
  | cons s ss => cases s <;> simp [text] at hc <;> subst hc <;> rfl

theorem laid_texts {ss : List Segment} (hs : ∀ s ∈ ss, s.Readable) :
    Laid (ss.flatMap fun s => s.text.toList) (ss.flatMap lexemes) := by
  induction ss with
  | nil => exact .nil
  | cons s ss ih =>
      obtain ⟨hs, hss⟩ := List.forall_mem_cons.mp hs
      exact laid_text hs (fun c hc => head?_texts hc) (ih hss)

end Segment

namespace Path

def lexemes (p : Path) : List Lexeme := ⟨.ident, p.field⟩ :: p.steps.flatMap Segment.lexemes

def Readable (p : Path) : Prop := ∀ s ∈ p.segments, s.Readable

variable {p : Path} {ls : List Lexeme}

theorem toList_text (p : Path) : p.text.toList = p.field.toList ++ p.steps.flatMap fun s => s.text.toList := by
  rw [text, String.toList_append, String.toList_join, List.flatMap_map]

theorem laid_text (hp : p.Readable) : Laid p.text.toList p.lexemes := by
  obtain ⟨hfield, hsteps⟩ := List.forall_mem_cons.mp hp
  rw [toList_text]
  apply Laid.lexeme (l := ⟨.ident, p.field⟩) hfield
  · exact fun c hc => Segment.head?_texts hc
  · exact Segment.laid_texts hsteps

theorem kinds_lexemes (ss : List Segment) :
    (ss.flatMap Segment.lexemes).map Lexeme.kind ∈ stepGrammar.matches'∗ := by
  induction ss with
  | nil => exact nil_mem_steps
  | cons s ss ih => cases s <;> simp [Segment.lexemes, cons_mem_steps, ih]

theorem segmentsIn_lexemes (before : Option TokenKind) (ss : List Segment) :
    segmentsIn before (ss.flatMap Segment.lexemes) = ss := by
  induction ss generalizing before with
  | nil => rfl
  | cons s ss ih =>
      cases s <;>
        simp [Segment.lexemes, segmentsIn, Lexeme.segment?, ih, decimal_toString, -Nat.toString_eq_repr]

theorem inRange_lexemes {ss : List Segment} (hs : ∀ s ∈ ss, s.Readable) :
    InRange (ss.flatMap Segment.lexemes) := by
  intro l hl hk
  obtain ⟨s, hmem, hl⟩ := List.mem_flatMap.mp hl
  obtain ⟨i, rfl, htext⟩ := Segment.number_of_mem_lexemes hl hk
  rw [htext, decimal_toString]
  exact hs _ hmem

theorem reads_lexemes (hp : p.Readable) : Reads p.lexemes p := by
  obtain ⟨hfield, hsteps⟩ := List.forall_mem_cons.mp hp
  exact reads_cons.mpr ⟨rfl, rfl, kinds_lexemes p.steps, inRange_lexemes hsteps, (segmentsIn_lexemes _ _).symm⟩

theorem parse_text (hp : p.Readable) : parse p.text = .ok p :=
  parse_eq_ok.mpr ⟨p.lexemes, lexemes_eq_some_iff_laid.mpr (laid_text hp), reads_lexemes hp⟩

theorem mem_segmentsIn {before : Option TokenKind} {s : Segment} (h : s ∈ segmentsIn before ls) :
    ∃ l ∈ ls, ∃ before, l.segment? before = some s := by
  induction ls generalizing before with
  | nil => cases h
  | cons l ls ih =>
      rcases List.mem_append.mp h with h | h
      · exact ⟨l, List.mem_cons_self, before, Option.mem_toList.mp h⟩
      · obtain ⟨l', hl', hs⟩ := ih h
        exact ⟨l', List.mem_cons_of_mem _ hl', hs⟩

theorem Reads.readable (h : Reads ls p) (hls : ∀ l ∈ ls, l.Proper) : p.Readable := by
  intro s hs
  rw [h.segments] at hs
  obtain ⟨l, hl, before, hseg⟩ := mem_segmentsIn hs
  have hproper := hls l hl
  have hrange := h.inRange l hl
  obtain ⟨kind, text⟩ := l
  cases kind with
  | number => exact Option.some.inj hseg ▸ hrange rfl
  | ident =>
      obtain rfl := Option.some.inj hseg
      split <;> exact hproper
  | dot | bracketOpen | bracketClose | greaterThan => cases hseg

theorem lexemes_bracketed {l : Lexeme} (hl : l.Neat) (hk : l.kind = .number ∨ l.kind = .ident) :
    (l.segment? (some .bracketOpen)).toList.flatMap Segment.lexemes =
      [⟨.bracketOpen, "["⟩, l, ⟨.bracketClose, "]"⟩] := by
  obtain ⟨kind, text⟩ := l
  rcases hk with rfl | rfl
  · obtain ⟨hne, hdigits⟩ := hl.proper.digits rfl
    simp [Lexeme.segment?, Segment.lexemes, toString_decimal hne hdigits (hl.plain rfl), -Nat.toString_eq_repr]
  · simp [Lexeme.segment?, Segment.lexemes]

/-- Neat lexemes are those that the path is displayed with. -/
theorem lexemes_of_neat {ls : List Lexeme} (hkinds : ls.map Lexeme.kind ∈ stepGrammar.matches'∗)
    (hneat : ∀ l ∈ ls, l.Neat) (before : Option TokenKind) :
    (segmentsIn before ls).flatMap Segment.lexemes = ls := by
  -- a step takes two or three lexemes, so the induction is on how many are left
  induction hn : ls.length using Nat.strongRecOn generalizing ls before with
  | ind n ih =>
      cases ls with
      | nil => rfl
      | cons l ls =>
          obtain ⟨hl, hls⟩ := List.forall_mem_cons.mp hneat
          rw [List.map_cons, cons_mem_steps] at hkinds
          rcases hkinds with ⟨hdot, ks, hks, hm⟩ | ⟨hopen, content, ks, hks, hc, hm⟩
          · obtain ⟨name, rest, rfl, hname, rfl⟩ := List.map_eq_cons_iff.mp hks
            obtain ⟨_, hrest⟩ := List.forall_mem_cons.mp hls
            have hdone := ih rest.length (by simp at hn; omega) hm hrest (some .ident) rfl
            rw [segmentsIn_key before hdot hname, List.flatMap_cons, hdone, hl.proper.eq_mark hdot rfl,
              Segment.lexemes, ← hname]
            rfl
          · obtain ⟨inside, closing, rfl, rfl, hclosing⟩ := List.map_eq_cons_iff.mp hks
            obtain ⟨close, rest, rfl, hclose, rfl⟩ := List.map_eq_cons_iff.mp hclosing
            obtain ⟨hinside, hls⟩ := List.forall_mem_cons.mp hls
            obtain ⟨hcl, hrest⟩ := List.forall_mem_cons.mp hls
            have hdone := ih rest.length (by simp at hn; omega) hm hrest (some .bracketClose) rfl
            rw [segmentsIn_bracket before hopen hclose, List.flatMap_append, hdone, lexemes_bracketed hinside hc,
              hl.proper.eq_mark hopen rfl, hcl.proper.eq_mark hclose rfl]
            rfl

theorem toList_text_eq_lexemes (p : Path) : p.text.toList = p.lexemes.flatMap fun l => l.text.toList := by
  rw [toList_text, lexemes, List.flatMap_cons, List.flatMap_assoc]
  congr 1
  apply List.flatMap_congr
  intro s _
  cases s <;> simp [Segment.text, Segment.lexemes]

/-- No blanks, and no bracketed number with a superfluous zero. -/
structure Canonical (text : String) : Prop where
  unblanked : ∀ c ∈ text.toList, isBlank c = false
  plain : ∀ ls, Address.lexemes text = some ls → ∀ l ∈ ls, l.kind = .number → Plain l.text

theorem plain_lexemes (p : Path) : ∀ l ∈ p.lexemes, l.kind = .number → Plain l.text := by
  intro l hl hk
  rcases List.mem_cons.mp hl with rfl | hl
  · cases hk
  · obtain ⟨s, _, hl⟩ := List.mem_flatMap.mp hl
    obtain ⟨i, rfl, htext⟩ := Segment.number_of_mem_lexemes hl hk
    exact htext ▸ plain_toString i

theorem canonical_text (hp : p.Readable) : Canonical p.text := by
  have hlaid := laid_text hp
  constructor
  case unblanked =>
    intro c hc
    rw [toList_text_eq_lexemes] at hc
    obtain ⟨l, hl, hc⟩ := List.mem_flatMap.mp hc
    exact (hlaid.proper l hl).not_blank c hc
  case plain =>
    intro ls hls
    obtain rfl : p.lexemes = ls := Option.some.inj ((lexemes_eq_some_iff_laid.mpr hlaid).symm.trans hls)
    exact plain_lexemes p

theorem text_of_canonical {text : String} (h : Canonical text) (hls : Address.lexemes text = some ls)
    (hp : Reads ls p) : p.text = text := by
  have hlaid := lexemes_eq_some_iff_laid.mp hls
  have hneat : ∀ l ∈ ls, l.Neat := fun l hl => ⟨hlaid.proper l hl, h.plain ls hls l hl⟩
  have hsame : p.lexemes = ls := by
    cases ls with
    | nil => exact (not_reads_nil p hp).elim
    | cons l ls =>
        obtain ⟨hk, hfield, hm, _, hsteps⟩ := reads_cons.mp hp
        have hneat' : ∀ l ∈ ls, l.Neat := fun l hl => hneat l (List.mem_cons_of_mem _ hl)
        rw [lexemes, hsteps, lexemes_of_neat (by simpa using hm) hneat', hfield, ← hk]
  apply String.toList_inj.mp
  rw [toList_text_eq_lexemes, hsame, ← hlaid.eq_flatMap h.unblanked]

theorem readable_of_parse {text : String} (h : parse text = .ok p) : p.Readable := by
  obtain ⟨ls, hls, hp⟩ := parse_eq_ok.mp h
  exact hp.readable (lexemes_eq_some_iff_laid.mp hls).proper

theorem text_eq_iff {text : String} (h : parse text = .ok p) : p.text = text ↔ Canonical text := by
  obtain ⟨ls, hls, hp⟩ := parse_eq_ok.mp h
  constructor
  · intro htext
    exact htext ▸ canonical_text (readable_of_parse h)
  · intro hcanonical
    exact text_of_canonical hcanonical hls hp

end Path

namespace Selector

def lexemes (s : Selector) : List Lexeme :=
  ⟨.ident, s.outermost⟩ :: s.inner.flatMap fun name => [⟨.greaterThan, ">"⟩, ⟨.ident, name⟩]

def Readable (s : Selector) : Prop := ∀ name ∈ s.scopes, IsName name

variable {s : Selector} {ls : List Lexeme}

theorem toList_text (s : Selector) :
    s.text.toList = s.outermost.toList ++ s.inner.flatMap fun name => ' ' :: '>' :: ' ' :: name.toList := by
  obtain ⟨outermost, inner⟩ := s
  rw [text, String.toList_intercalate, scopes]
  induction inner generalizing outermost with
  | nil => simp [List.intercalate]
  | cons name names ih =>
      have hrest := ih name
      simp [List.intercalate] at hrest ⊢
      exact hrest

theorem laid_inner {names : List String} (h : ∀ name ∈ names, IsName name) :
    Laid (names.flatMap fun name => ' ' :: '>' :: ' ' :: name.toList)
      (names.flatMap fun name => [⟨.greaterThan, ">"⟩, ⟨.ident, name⟩]) := by
  induction names with
  | nil => exact .nil
  | cons name names ih =>
      obtain ⟨hname, hnames⟩ := List.forall_mem_cons.mp h
      apply Laid.blank rfl
      apply laid_mark rfl
      apply Laid.blank rfl
      apply Laid.lexeme (l := ⟨.ident, name⟩) hname
      · intro c hc
        cases names with
        | nil => cases hc
        | cons _ _ => cases hc; rfl
      · exact ih hnames

theorem laid_text (hs : s.Readable) : Laid s.text.toList s.lexemes := by
  obtain ⟨houter, hinner⟩ := List.forall_mem_cons.mp hs
  rw [toList_text]
  apply Laid.lexeme (l := ⟨.ident, s.outermost⟩) houter
  · intro c hc
    cases hnames : s.inner with
    | nil => rw [hnames] at hc; cases hc
    | cons _ _ => rw [hnames] at hc; cases hc; rfl
  · exact laid_inner hinner

theorem reads_lexemes (s : Selector) : Reads s.lexemes s := by
  refine reads_cons.mpr ⟨rfl, rfl, ?_, ?_⟩
  · induction s.inner with
    | nil => exact nil_mem_inner
    | cons name names ih => simpa [cons_mem_inner] using ih
  · induction s.inner with
    | nil => rfl
    | cons name names ih => simpa [namesIn_cons] using ih

theorem parse_text (hs : s.Readable) : parse s.text = .ok s :=
  parse_eq_ok.mpr ⟨s.lexemes, lexemes_eq_some_iff_laid.mpr (laid_text hs), reads_lexemes s⟩

theorem Reads.readable (h : Reads ls s) (hls : ∀ l ∈ ls, l.Proper) : s.Readable := by
  intro name hname
  rw [h.scopes] at hname
  obtain ⟨l, hl, rfl⟩ := List.mem_map.mp hname
  obtain ⟨hmem, hk⟩ := List.mem_filter.mp hl
  obtain ⟨kind, text⟩ := l
  obtain rfl : kind = .ident := by simpa using hk
  exact hls _ hmem

theorem readable_of_parse {text : String} (h : parse text = .ok s) : s.Readable := by
  obtain ⟨ls, hls, hs⟩ := parse_eq_ok.mp h
  exact hs.readable (lexemes_eq_some_iff_laid.mp hls).proper

/-- Names joined by one `>` with one blank on each side. -/
def Canonical (text : String) : Prop :=
  ∃ names, (∀ name ∈ names, IsName name) ∧ text = " > ".intercalate names

theorem text_eq_iff {text : String} (h : parse text = .ok s) : s.text = text ↔ Canonical text := by
  constructor
  · intro htext
    exact ⟨s.scopes, readable_of_parse h, htext.symm⟩
  · rintro ⟨names, hnames, rfl⟩
    cases names with
    | nil =>
        obtain ⟨ls, hls, hs⟩ := parse_eq_ok.mp h
        have hempty : Address.lexemes (" > ".intercalate []) = some [] := lexemes_eq_some_iff_laid.mpr .nil
        obtain rfl : [] = ls := Option.some.inj (hempty.symm.trans hls)
        exact (not_reads_nil s hs).elim
    | cons name names =>
        have hsame : parse (" > ".intercalate (name :: names)) = .ok ⟨name, names⟩ :=
          parse_text (s := ⟨name, names⟩) hnames
        obtain rfl : s = ⟨name, names⟩ := Except.ok.inj (h.symm.trans hsame)
        rfl

end Selector

/-- To display what was read and to read what is displayed undo each other, the
first on canonical texts alone. -/
theorem display_inverts_reading :
    (∀ text s, Selector.parse text = .ok s →
      Selector.parse s.text = .ok s ∧ (s.text = text ↔ Selector.Canonical text)) ∧
    (∀ text p, Path.parse text = .ok p →
      Path.parse p.text = .ok p ∧ (p.text = text ↔ Path.Canonical text)) ∧
    Set.InjOn Selector.text {s | ∃ text, Selector.parse text = .ok s} ∧
    Set.InjOn Path.text {p | ∃ text, Path.parse text = .ok p} := by
  have hselector {text : String} {s : Selector} (h : Selector.parse text = .ok s) :
      Selector.parse s.text = .ok s :=
    Selector.parse_text (Selector.readable_of_parse h)
  have hpath {text : String} {p : Path} (h : Path.parse text = .ok p) : Path.parse p.text = .ok p :=
    Path.parse_text (Path.readable_of_parse h)
  refine ⟨fun text s h => ⟨hselector h, Selector.text_eq_iff h⟩,
    fun text p h => ⟨hpath h, Path.text_eq_iff h⟩, ?_, ?_⟩
  · rintro s ⟨_, hs⟩ r ⟨_, hr⟩ heq
    have hsame := (hselector hs).symm.trans ((congrArg Selector.parse heq).trans (hselector hr))
    exact Except.ok.inj hsame
  · rintro p ⟨_, hp⟩ q ⟨_, hq⟩ heq
    have hsame := (hpath hp).symm.trans ((congrArg Path.parse heq).trans (hpath hq))
    exact Except.ok.inj hsame

end ViewWiring.Address
