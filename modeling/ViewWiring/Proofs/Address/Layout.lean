import ViewWiring.Address.Token
import ViewWiring.Proofs.Outcome

namespace ViewWiring.Address

structure Lexeme where
  kind : TokenKind
  text : String
  deriving DecidableEq, Repr

def Token.lexeme (t : Token) : Lexeme := ⟨t.kind, t.text⟩

def lexemes (text : String) : Option (List Lexeme) :=
  (tokens text).toOption.map fun ts => ts.map Token.lexeme

def TokenKind.Forms (k : TokenKind) : List Char → Prop
  | [] => False
  | c :: cs => startingWith? c = some k ∧ ∀ d ∈ cs, k.goesOnWith d = true

def Lexeme.Proper (l : Lexeme) : Prop := l.kind.Forms l.text.toList

/-- The characters of a text as lexemes with blanks before, between and after
them. A lexeme ends where nothing goes on with it. -/
inductive Laid : List Char → List Lexeme → Prop
  | nil : Laid [] []
  | blank {c : Char} {cs : List Char} {ls : List Lexeme} (hc : isBlank c = true) (h : Laid cs ls) :
      Laid (c :: cs) ls
  | lexeme {l : Lexeme} {cs : List Char} {ls : List Lexeme} (hl : l.Proper)
      (hend : ∀ c ∈ cs.head?, l.kind.goesOnWith c = false) (h : Laid cs ls) :
      Laid (l.text.toList ++ cs) (l :: ls)

theorem blank_cases {c : Char} (h : isBlank c = true) :
    c = ' ' ∨ c = '\t' ∨ c = '\n' ∨ c = '\r' ∨ c = '\x0c' := by
  simpa [isBlank, or_assoc] using h

namespace TokenKind

theorem isBlank_of_startingWith? {c : Char} {k : TokenKind} (h : startingWith? c = some k) :
    isBlank c = false := by
  apply Bool.eq_false_iff.mpr
  intro hc
  rcases blank_cases hc with rfl | rfl | rfl | rfl | rfl <;> cases h

theorem takeWhile_lexeme {k : TokenKind} {body rest : List Char} (hbody : ∀ c ∈ body, k.goesOnWith c = true)
    (hend : ∀ c ∈ rest.head?, k.goesOnWith c = false) :
    (body ++ rest).takeWhile k.goesOnWith = body ∧ (body ++ rest).dropWhile k.goesOnWith = rest := by
  rw [List.takeWhile_append_of_pos hbody, List.dropWhile_append_of_pos hbody]
  cases rest with
  | nil => simp
  | cons c rest => simp [hend c rfl]

theorem stops_dropWhile (k : TokenKind) (cs : List Char) :
    ∀ c ∈ (cs.dropWhile k.goesOnWith).head?, k.goesOnWith c = false := by
  intro c hc
  have hstop := List.head?_dropWhile_not k.goesOnWith cs
  rwa [hc] at hstop

end TokenKind

theorem scanFrom_blank {c : Char} (hc : isBlank c = true) (offset : Nat) (cs : List Char) :
    scanFrom offset (c :: cs) = scanFrom (offset + c.utf8Size) cs := by
  rw [scanFrom, if_pos hc]

theorem scanFrom_lexeme {l : Lexeme} (hl : l.Proper) {cs : List Char}
    (hend : ∀ c ∈ cs.head?, l.kind.goesOnWith c = false) (offset : Nat) :
    scanFrom offset (l.text.toList ++ cs) =
      (scanFrom (offset + byteLength l.text.toList) cs).map (⟨l.kind, l.text, offset⟩ :: ·) := by
  obtain ⟨kind, text⟩ := l
  obtain ⟨chars, rfl⟩ : ∃ chars, text = .ofList chars := ⟨text.toList, String.ofList_toList.symm⟩
  simp only [Lexeme.Proper, String.toList_ofList] at hl hend ⊢
  cases chars with
  | nil => exact hl.elim
  | cons c body =>
      obtain ⟨hc, hbody⟩ := hl
      obtain ⟨htake, hdrop⟩ := TokenKind.takeWhile_lexeme hbody hend
      rw [List.cons_append, scanFrom, if_neg (by simp [TokenKind.isBlank_of_startingWith? hc]), hc]
      simp only [htake, hdrop]

/-- The characters of a text decide its lexemes, wherever the text stands. -/
theorem scanFrom_of_laid {cs : List Char} {ls : List Lexeme} (h : Laid cs ls) (offset : Nat) :
    ∃ ts, scanFrom offset cs = .ok ts ∧ ts.map Token.lexeme = ls := by
  induction h generalizing offset with
  | nil => exact ⟨[], by rw [scanFrom], rfl⟩
  | @blank c cs ls hc _ ih => rw [scanFrom_blank hc]; exact ih _
  | @lexeme l cs ls hl hend _ ih =>
      obtain ⟨ts, hts, hls⟩ := ih (offset + byteLength l.text.toList)
      refine ⟨⟨l.kind, l.text, offset⟩ :: ts, ?_, ?_⟩
      · rw [scanFrom_lexeme hl hend, hts]; rfl
      · rw [List.map_cons, hls]; rfl

theorem laid_of_scanFrom {cs : List Char} {offset : Nat} {ts : List Token}
    (h : scanFrom offset cs = .ok ts) : Laid cs (ts.map Token.lexeme) := by
  fun_induction scanFrom offset cs generalizing ts with
  | case1 => cases h; exact .nil
  | case2 offset c cs hc ih => exact .blank hc (ih h)
  | case3 => cases h
  | case4 offset c cs _ kind hkind lexeme =>
      rename_i ih
      obtain ⟨us, hus, rfl⟩ := map_eq_ok.mp h
      have hproper : Lexeme.Proper ⟨kind, .ofList lexeme⟩ := by
        rw [Lexeme.Proper, String.toList_ofList]
        exact ⟨hkind, List.all_eq_true.mp List.all_takeWhile⟩
      have hchars : c :: cs = (String.ofList lexeme).toList ++ cs.dropWhile kind.goesOnWith := by
        rw [String.toList_ofList, List.cons_append, List.takeWhile_append_dropWhile]
      rw [hchars]
      exact .lexeme (l := ⟨kind, .ofList lexeme⟩) hproper (kind.stops_dropWhile cs) (ih hus)

theorem lexemes_eq_some {text : String} {ls : List Lexeme} :
    lexemes text = some ls ↔ ∃ ts, tokens text = .ok ts ∧ ts.map Token.lexeme = ls := by
  simp only [lexemes, Option.map_eq_some_iff, toOption_eq_some]

/-- Scanning finds the lexemes as which the text is laid out. -/
theorem lexemes_eq_some_iff_laid {text : String} {ls : List Lexeme} :
    lexemes text = some ls ↔ Laid text.toList ls := by
  rw [lexemes_eq_some]
  constructor
  · rintro ⟨ts, hts, rfl⟩
    exact laid_of_scanFrom hts
  · intro h
    exact scanFrom_of_laid h 0

theorem Laid.proper {cs : List Char} {ls : List Lexeme} (h : Laid cs ls) : ∀ l ∈ ls, l.Proper := by
  induction h with
  | nil => simp
  | blank _ _ ih => exact ih
  | lexeme hl _ _ ih =>
      intro l' hl'
      rcases List.mem_cons.mp hl' with rfl | hl'
      · exact hl
      · exact ih l' hl'

theorem Laid.eq_flatMap {cs : List Char} {ls : List Lexeme} (h : Laid cs ls)
    (hcs : ∀ c ∈ cs, isBlank c = false) : cs = ls.flatMap fun l => l.text.toList := by
  induction h with
  | nil => rfl
  | @blank c _ _ hc _ _ => simp [hcs c List.mem_cons_self] at hc
  | lexeme _ _ _ ih =>
      rw [List.flatMap_cons, ← ih fun c hc => hcs c (List.mem_append_right _ hc)]

end ViewWiring.Address
